import IrcHub.Proofs.PeerLink.Ends

/-!
# `IrcHub.Proofs.PeerLink.Agree`: two hubs keep the same link

One invariant over both hubs and every connection (`MeshGood`) holds from the start on
(`meshGood_run`). An event changes one hub, and one connection or two.

* `MeshGood.change`, `MeshGood.one`: what has to be shown of a step, for the connections it
  touched
* `MeshGood.dial`, `.accept`, `.finish`, `.read`, `.close`: one lemma for each event
* `MeshGood.tookOver`: a hello made a connection the link, and shut down the one that was
* `link_agrees`: with nothing on the way both hubs name the same connection

The order of the uuids plays no part in the invariant. It decides only which link stays. Nor does
the order of events: a frame may wait for as long as it likes, and the end of a stream is a frame
like the others, behind all that was sent before.
-/

set_option autoImplicit false

namespace IrcHub.Proofs

open IrcHub.Hub

/-- What each hub has of connection `fd`. -/
def ends (m : LinkMesh) (fd : Nat) : Bool → Option PeerConn := fun i => connOf (m.hub i) fd

/-- What holds of two hubs and their connections between events: each hub by itself, each
connection with its two ends, and that no hub has a connection that was never dialled. -/
structure MeshGood (m : LinkMesh) : Prop where
  hubs : ∀ i, HubLinked (m.hub i)
  wires : ∀ fd w, m.wires[fd]? = some w → WireGood (ends m fd) w
  known : ∀ i fd c, connOf (m.hub i) fd = some c → fd < m.wires.length

variable {m m' : LinkMesh} {i : Bool} {fd ci : Nat} {c : PeerConn}

/-- What both ends know of a link depends on those two alone. -/
theorem ends_eq (hother : m'.hub (!i) = m.hub (!i))
    (hself : connOf (m'.hub i) fd = connOf (m.hub i) fd) :
    ends m' fd = ends m fd := by
  funext j
  by_cases hj : j = i
  · rw [hj]
    exact hself
  · rw [eq_not_of_ne hj]
    show connOf (m'.hub (!i)) fd = connOf (m.hub (!i)) fd
    rw [hother]

/-- A step of hub `i`: of every connection it left alone nothing is to be shown. -/
theorem MeshGood.change (hm : MeshGood m) (hlinked : HubLinked (m'.hub i))
    (hother : m'.hub (!i) = m.hub (!i)) (hlen : m'.wires.length = m.wires.length)
    (hknown : ∀ k c, connOf (m'.hub i) k = some c → k < m.wires.length)
    (hwires : ∀ k w', m'.wires[k]? = some w' →
      (m.wires[k]? = some w' ∧ connOf (m'.hub i) k = connOf (m.hub i) k)
      ∨ WireGood (ends m' k) w') :
    MeshGood m' := by
  refine ⟨fun j => ?_, fun k w' hw' => ?_, fun j k c hc => ?_⟩
  · by_cases hj : j = i
    · rw [hj]
      exact hlinked
    · rw [eq_not_of_ne hj, hother]
      exact hm.hubs (!i)
  · rcases hwires k w' hw' with ⟨hw, hsame⟩ | hgood
    · rw [ends_eq hother hsame]
      exact hm.wires k w' hw
    · exact hgood
  · rw [hlen]
    by_cases hj : j = i
    · rw [hj] at hc
      exact hknown k c hc
    · rw [eq_not_of_ne hj, hother] at hc
      exact hm.known (!i) k c hc

/-- A step of hub `i` at one connection, whose wire it changes by `f`. -/
theorem MeshGood.one (hm : MeshGood m) (fd : Nat) {f : PeerWire → PeerWire}
    (hlinked : HubLinked (m'.hub i)) (hother : m'.hub (!i) = m.hub (!i))
    (hwires : m'.wires = m.wires.modify fd f)
    (hconns : ∀ k, k ≠ fd → connOf (m'.hub i) k = connOf (m.hub i) k) (hfd : fd < m.wires.length)
    (hgood : ∀ w, m.wires[fd]? = some w → WireGood (ends m fd) w → WireGood (ends m' fd) (f w)) :
    MeshGood m' := by
  refine hm.change hlinked hother ?_ (fun k c hc => ?_) fun k w' hw' => ?_
  · rw [hwires, List.length_modify]
  · by_cases hk : k = fd
    · rw [hk]
      exact hfd
    · rw [hconns k hk] at hc
      exact hm.known i k c hc
  · by_cases hk : k = fd
    · subst hk
      rw [hwires, List.getElem?_modify_eq] at hw'
      obtain ⟨w, hw, rfl⟩ := Option.map_eq_some_iff.mp hw'
      exact .inr (hgood w hw (hm.wires k w hw))
    · rw [hwires, List.getElem?_modify_ne _ _ (Ne.symm hk)] at hw'
      exact .inl ⟨hw', hconns k hk⟩

/-! ### The steps -/

/-- The hub that changed. -/
theorem hub_setHub_self (m : LinkMesh) (i : Bool) (h : LinkHub) : (m.setHub i h).hub i = h :=
  Function.update_self ..

/-- The other did not. -/
theorem hub_setHub_other (m : LinkMesh) (i : Bool) (h : LinkHub) :
    (m.setHub i h).hub (!i) = m.hub (!i) :=
  Function.update_of_ne (Bool.not_ne_self i) ..

/-- A descriptor has a connection or has none. The hub looks it up by place, the invariant by
number. -/
theorem clientByFd_cases (h : LinkHub) (fd : Nat) :
    (h.clientByFd fd = none ∧ connOf h fd = none)
      ∨ ∃ ci c, h.clientByFd fd = some ci ∧ h.clients[ci]? = some c ∧ c.fd = fd
        ∧ connOf h fd = some c := by
  have hpred : (fun c : PeerConn => c.fd == fd) = fun c => decide (c.fd = fd) := by
    funext c
    exact beq_eq_decide ..
  cases hc : connOf h fd with
  | none =>
    refine .inl ⟨?_, rfl⟩
    unfold LinkHub.clientByFd
    rw [List.findIdx?_eq_none_iff]
    intro c hmem
    simpa using Table.row_eq_none_iff.mp hc c hmem
  | some c =>
    obtain ⟨ci, hci, hget⟩ := Table.getElem?_of_row hc
    refine .inr ⟨ci, c, ?_, hget, Table.key_of_row hc, rfl⟩
    unfold LinkHub.clientByFd
    rw [hpred]
    exact hci

/-- A hub closes a connection it has. What was on the way to it may be read first. -/
theorem MeshGood.closed (hm : MeshGood m) {f : PeerWire → PeerWire}
    (hget : (m.hub i).clients[ci]? = some c) (hself : m'.hub i = (m.hub i).disconnectClient ci)
    (hother : m'.hub (!i) = m.hub (!i)) (hwires : m'.wires = m.wires.modify c.fd f)
    (hdialer : ∀ w, (f w).dialer = w.dialer) (hacc : ∀ w, (f w).accepted = w.accepted)
    (heof : ∀ w, (f w).toward (!i) = w.toward (!i) ++ [.eof]) :
    MeshGood m' := by
  have hg := hm.hubs i
  have hc := connOf_of_getElem? hg hget
  have hconn := connOf_disconnect hg hget
  refine hm.one c.fd (i := i) (f := f) ?_ hother hwires (fun k hk => ?_)
    (hm.known i c.fd c hc) fun w _ hgood => ?_
  · rw [hself]
    exact hg.disconnect ci
  · rw [hself, hconn, if_neg (Ne.symm hk)]
  · refine hgood.closed (i := i) hc ?_ ?_ (hdialer w) (hacc w) (heof w)
    · show connOf (m'.hub i) c.fd = none
      rw [hself, hconn, if_pos rfl]
    · show connOf (m'.hub (!i)) c.fd = connOf (m.hub (!i)) c.fd
      rw [hother]

/-- A connection is closed. -/
theorem MeshGood.close (hm : MeshGood m) (i : Bool) (ci : Nat) : MeshGood (m.close i ci) := by
  unfold LinkMesh.close
  cases hget : (m.hub i).clients[ci]? with
  | none => exact hm
  | some c =>
    exact hm.closed hget (hub_setHub_self ..) (hub_setHub_other ..) rfl (fun _ => rfl)
      (fun _ => rfl) fun w => toward_put_self w ..

/-- A new number is of no connection. -/
theorem MeshGood.unknown (hm : MeshGood m) (i : Bool) (hlen : m.wires.length ≤ fd) :
    connOf (m.hub i) fd = none := by
  cases hc : connOf (m.hub i) fd with
  | none => rfl
  | some c =>
    have hlt := hm.known i fd c hc
    omega

/-- A connection that was just dialled: the other hub does not have it yet, and nothing was
sent. -/
theorem WireGood.new {conn : Bool → Option PeerConn} (hc : conn i = some c)
    (hnone : conn (!i) = none) (hin : c.inbound = false) (hdial : c.dialing = true)
    (hsup : c.superseded = false) :
    WireGood conn { dialer := i, toward := fun _ => [] } := by
  have hhad : ∀ {j e}, conn j = some e → j = i ∧ e = c := by
    intro j e he
    by_cases hj : j = i
    · rw [hj, hc] at he
      exact ⟨hj, (Option.some.inj he).symm⟩
    · rw [eq_not_of_ne hj, hnone] at he
      cases he
  refine ⟨fun j e he => ?_, fun j e he => .inr (.inr ⟨rfl, (hhad he).1.symm⟩), fun e he _ => ?_,
    fun _ => .inl ⟨c, hc, hdial⟩, fun _ => .inl ⟨c, hc, hsup⟩⟩
  · obtain ⟨rfl, rfl⟩ := hhad he
    refine ⟨⟨fun hno => ?_, fun hne => absurd rfl hne⟩, fun hne => absurd rfl hne⟩
    rw [hin] at hno
    cases hno
  · have hno : conn (!i) = some e := he
    rw [hnone] at hno
    cases hno

/-- A hub dials the other, unless it has a link or is dialling already. -/
theorem MeshGood.dial (hm : MeshGood m) (i : Bool) : MeshGood (m.step (.dial i)) := by
  have hg := hm.hubs i
  simp only [LinkMesh.step, LinkHub.checkPeers]
  -- the hub does not dial
  split
  · exact hm
  rename_i h hdial
  split at hdial
  · cases hdial
  split at hdial
  · cases hdial
  cases hdial
  -- the dialler has one more connection, under a new number
  obtain ⟨hlinked, hconn⟩ := hg.append
    (c := { fd := m.wires.length, typ := .hub, dialing := true, dialUuid := (m.hub i).peer.uuid })
    (hm.unknown i le_rfl) rfl rfl (by simp) fun _ => rfl
  -- the three parts: the hubs, the wires and the descriptors
  refine ⟨fun j => ?_, fun k w hw => ?_, fun j k c hc => ?_⟩
  · by_cases hj : j = i
    · rw [hj]
      show HubLinked ((m.setHub i _).hub i)
      rw [hub_setHub_self]
      exact hlinked
    · rw [eq_not_of_ne hj]
      show HubLinked ((m.setHub i _).hub (!i))
      rw [hub_setHub_other]
      exact hm.hubs (!i)
  -- the new wire has one end, and the hello is still to come
  · by_cases hk : k = m.wires.length
    · rw [hk, List.getElem?_concat_length] at hw
      cases hw
      subst hk
      refine WireGood.new (i := i)
        (c := { fd := m.wires.length, typ := .hub, dialing := true,
                dialUuid := (m.hub i).peer.uuid }) ?_ ?_ rfl rfl rfl
      · show connOf ((m.setHub i _).hub i) m.wires.length = some _
        rw [hub_setHub_self]
        exact (hconn m.wires.length).trans (if_pos rfl)
      · show connOf ((m.setHub i _).hub (!i)) m.wires.length = none
        rw [hub_setHub_other]
        exact hm.unknown (!i) le_rfl
    -- another wire has the ends it had
    · have hlt : k < m.wires.length := by
        have hlt := (List.getElem?_eq_some_iff.mp hw).1
        rw [List.length_append, List.length_singleton] at hlt
        omega
      rw [List.getElem?_append_left hlt] at hw
      show WireGood (ends (m.setHub i _) k) w
      rw [ends_eq (hub_setHub_other ..)]
      · exact hm.wires k w hw
      · show connOf ((m.setHub i _).hub i) k = connOf (m.hub i) k
        rw [hub_setHub_self]
        exact (hconn k).trans (if_neg fun heq => hk heq.symm)
  · rw [List.length_append, List.length_singleton]
    by_cases hj : j = i
    · rw [hj] at hc
      have hc' : connOf ((m.setHub i _).hub i) k = some c := hc
      rw [hub_setHub_self, hconn] at hc'
      split at hc'
      · rename_i hk
        have hk' : m.wires.length = k := hk
        omega
      · exact Nat.lt_succ_of_lt (hm.known i k c hc')
    · rw [eq_not_of_ne hj] at hc
      have hc' : connOf ((m.setHub i _).hub (!i)) k = some c := hc
      rw [hub_setHub_other] at hc'
      exact Nat.lt_succ_of_lt (hm.known (!i) k c hc')

/-- A hub accepts, or has no room and closes at once. -/
theorem MeshGood.accept (hm : MeshGood m) (i : Bool) (fd : Nat) :
    MeshGood (m.step (.accept i fd)) := by
  have hg := hm.hubs i
  simp only [LinkMesh.step]
  -- there is no such wire, or its other end is known here already
  split
  · exact hm
  rename_i w hw
  split
  · exact hm
  rename_i hnew
  simp only [Bool.or_eq_true, decide_eq_true_eq, not_or, Bool.not_eq_true] at hnew
  have hlt := (List.getElem?_eq_some_iff.mp hw).1
  -- it has no end at this hub yet
  have hnone : connOf (m.hub i) fd = none := by
    cases hc : connOf (m.hub i) fd with
    | none => rfl
    | some c =>
      have hacc := ((hm.wires fd w hw).sides i c hc).2 hnew.1
      rw [hnew.2] at hacc
      cases hacc
  split
  -- no room: the end of the stream goes back at once
  · refine hm.one fd (i := i) (f := fun w => PeerWire.put { w with accepted := true } (!i) .eof)
      hg rfl ?_ (fun _ _ => rfl) hlt fun w' hw' hgood => ?_
    · exact Table.modify_modify ..
    · rw [hw] at hw'
      cases hw'
      exact hgood.refused hnew.1 hnew.2
  -- room: the connection waits for its hello
  · rename_i h hacc
    unfold LinkHub.acceptOne at hacc
    split at hacc
    · cases hacc
    cases hacc
    obtain ⟨hlinked, hconn⟩ := hg.append (c := { fd := fd, inbound := true }) hnone rfl rfl
      (by simp) fun hno => (nomatch hno)
    refine hm.one fd (i := i) (f := fun w => { w with accepted := true }) ?_
      (hub_setHub_other ..) rfl (fun k hk => ?_) hlt fun w' hw' hgood => ?_
    · show HubLinked ((m.setHub i _).hub i)
      rw [hub_setHub_self]
      exact hlinked
    · show connOf ((m.setHub i _).hub i) k = connOf (m.hub i) k
      rw [hub_setHub_self]
      exact (hconn k).trans (if_neg fun heq => hk heq.symm)
    · rw [hw] at hw'
      cases hw'
      refine hgood.accepted (d := { fd := fd, inbound := true }) hnew.1 hnew.2 ?_ rfl rfl ?_
      · show connOf ((m.setHub i _).hub i) fd = some _
        rw [hub_setHub_self]
        exact (hconn fd).trans (if_pos rfl)
      · show connOf ((m.setHub i _).hub (!i)) fd = connOf (m.hub (!i)) fd
        rw [hub_setHub_other]

/-- A dialled connection is up, or failed. -/
theorem MeshGood.finish (hm : MeshGood m) (i : Bool) (fd : Nat) (up sent : Bool) :
    MeshGood (m.step (.finish i fd up sent)) := by
  have hg := hm.hubs i
  simp only [LinkMesh.step]
  rcases clientByFd_cases (m.hub i) fd with ⟨hno, -⟩ | ⟨ci, c, hci, hget, rfl, hc⟩
  · rw [hno]
    exact hm
  rw [hci]
  dsimp only
  rw [hget, Option.any_some]
  split
  · exact hm
  rename_i hdial
  rw [Bool.not_eq_true, Bool.not_eq_false'] at hdial
  have hpending := hg.dialing c.fd c hc hdial
  rcases finishDial_cases hg hget up sent with hend | ⟨hdown, hend⟩
  · rw [hend]
    exact hm.closed hget (hub_setHub_self ..) (hub_setHub_other ..) rfl (fun _ => rfl)
      (fun _ => rfl) fun w => toward_put_self w ..
  · rw [hend]
    have hf : ∀ d : PeerConn, ({ d with dialing := false, authenticated := true } : PeerConn).fd
      = d.fd := fun _ => rfl
    have hconn := connOf_modify hg hget hf
      { (m.hub i).peer with connected := true, fd := some c.fd }
    refine hm.one c.fd (i := i) (f := fun w => w.put (!i) .hello) ?_ (hub_setHub_other ..) rfl
      (fun k hk => ?_) (hm.known i c.fd c hc) fun w _ hgood => ?_
    · show HubLinked ((m.setHub i _).hub i)
      rw [hub_setHub_self]
      exact hg.dialled hget hdial hdown
    · show connOf ((m.setHub i _).hub i) k = connOf (m.hub i) k
      rw [hub_setHub_self]
      exact (hconn k).trans (if_neg (Ne.symm hk))
    · refine hgood.dialled (d := { c with dialing := false, authenticated := true }) hc hpending.2
        ?_ hpending.2 (hg.pending c.fd c hc hpending.1) ?_
      · show connOf ((m.setHub i _).hub i) c.fd = some _
        rw [hub_setHub_self]
        exact (hconn c.fd).trans (if_pos rfl)
      · show connOf ((m.setHub i _).hub (!i)) c.fd = connOf (m.hub (!i)) c.fd
        rw [hub_setHub_other]

/-- The next frame on connection `fd` is taken by hub `i`, which has not got the connection. -/
theorem MeshGood.take (hm : MeshGood m) {w : PeerWire} (hw : m.wires[fd]? = some w)
    (hnone : connOf (m.hub i) fd = none) (hlate : w.dialer = i ∨ w.accepted = true) :
    MeshGood (m.take fd i) := by
  refine hm.one fd (i := i) (f := fun w => w.pop i) (hm.hubs i) rfl rfl (fun _ _ => rfl)
    (List.getElem?_eq_some_iff.mp hw).1 fun w' hw' hgood => ?_
  rw [hw] at hw'
  cases hw'
  exact hgood.lost hnone hlate

/-- A hub reads a hello on a connection that is authenticated. -/
theorem MeshGood.again (hm : MeshGood m) {w : PeerWire} (hw : m.wires[fd]? = some w)
    (hc : connOf (m.hub i) fd = some c) (hauth : c.authenticated = true)
    (hhead : (w.toward i).head? = some .hello) : MeshGood (m.take fd i) := by
  refine hm.one fd (i := i) (f := fun w => w.pop i) (hm.hubs i) rfl rfl (fun _ _ => rfl)
    (List.getElem?_eq_some_iff.mp hw).1 fun w' hw' hgood => ?_
  rw [hw] at hw'
  cases hw'
  exact hgood.greeted hc hc rfl rfl hauth rfl rfl hhead

/-- A hub that closes may have read one of the frames first. -/
theorem MeshGood.takeClosed (hm : MeshGood m) (hget : (m.hub i).clients[ci]? = some c) :
    MeshGood (((m.take c.fd i).setHub i ((m.hub i).disconnectClient ci)).send c.fd
      (!i) .eof) := by
  refine hm.closed (f := fun w => (w.pop i).put (!i) .eof) hget (hub_setHub_self ..)
    (hub_setHub_other ..) (Table.modify_modify ..) (fun _ => rfl) (fun _ => rfl) fun w => ?_
  rw [toward_put_self, toward_pop_ne (Bool.not_ne_self i)]

/-- A hello made connection `c` the link, and shut down the one that was. Two wires change: that
of `c`, whose hello was read, and that of the old link, which gets the end of its stream. -/
theorem MeshGood.tookOver (hm : MeshGood m) {h : LinkHub} {down : Option Nat} {w : PeerWire}
    (hget : (m.hub i).clients[ci]? = some c) (ht : TookOver (m.hub i) c h down)
    (hw : m.wires[c.fd]? = some w) (hhead : (w.toward i).head? = some .hello)
    (hself : m'.hub i = h) (hother : m'.hub (!i) = m.hub (!i))
    (hlen : m'.wires.length = m.wires.length)
    (hwires : ∀ k, m'.wires[k]? = if c.fd = k then (m.wires[k]?).map fun w => w.pop i
      else if down = some k then (m.wires[k]?).map fun w => w.put (!i) .eof else m.wires[k]?) :
        MeshGood m' := by
  have hc := connOf_of_getElem? (hm.hubs i) hget
  subst hself
  refine hm.change (i := i) ht.linked hother hlen (fun k d hd => ?_) fun k w' hw' => ?_
  · rw [ht.conns] at hd
    split at hd
    · rename_i hk
      rw [← hk]
      exact hm.known i c.fd c hc
    split at hd
    · obtain ⟨o, ho, -⟩ := Option.map_eq_some_iff.mp hd
      exact hm.known i k o ho
    · exact hm.known i k d hd
  · have hends : ends m' k (!i) = ends m k (!i) := by
      show connOf (m'.hub (!i)) k = connOf (m.hub (!i)) k
      rw [hother]
    have hconn := ht.conns k
    rw [hwires] at hw'
    by_cases hk : c.fd = k
    · subst hk
      rw [if_pos rfl] at hw' hconn
      rw [hw] at hw'
      cases hw'
      exact .inr ((hm.wires c.fd w hw).greeted hc hconn rfl rfl rfl rfl hends hhead)
    rw [if_neg hk] at hw' hconn
    by_cases hdown : down = some k
    · rw [if_pos hdown] at hw' hconn
      obtain ⟨-, o, ho, hauth, -⟩ := ht.lost k hdown
      rw [ho] at hconn
      obtain ⟨w₀, hw₀, rfl⟩ := Option.map_eq_some_iff.mp hw'
      exact .inr ((hm.wires k w₀ hw₀).shutDown ho hauth hconn hends)
    · rw [if_neg hdown] at hw' hconn
      exact .inl ⟨hw', hconn⟩

/-- A frame is read, or what was read is not valid. The cases are the frame at the head of the
wire and what the hub makes of it. -/
theorem MeshGood.read (hm : MeshGood m) (i : Bool) (fd : Nat) (valid : Bool) :
    MeshGood (m.step (.read i fd valid)) := by
  have hg := hm.hubs i
  simp only [LinkMesh.step, LinkMesh.read]
  split
  -- no such wire
  · exact hm
  rename_i w hw
  -- the descriptor is closed on this side: only what comes too late is taken off the wire
  rcases clientByFd_cases (m.hub i) fd with ⟨hno, hnone⟩ | ⟨ci, c, hci, hget, rfl, hc⟩
  · rw [hno]
    cases hhead : (w.toward i).head? with
    | none => exact hm
    | some f =>
      dsimp only
      split
      · rename_i hlate
        exact hm.take hw hnone (by simpa using hlate)
      · exact hm
  rw [hci]
  -- nothing has come
  cases hhead : (w.toward i).head? with
  | none => exact hm
  | some f =>
    dsimp only
    rw [hget]
    dsimp only
    -- a dial that is not through is not read
    split
    · exact hm
    rename_i hdial
    rw [Bool.not_eq_true] at hdial
    cases f with
    -- the end of the stream: the hub closes the connection
    | eof =>
      have hclose : (m.take c.fd i).close i ci
          = ((m.take c.fd i).setHub i ((m.hub i).disconnectClient ci)).send c.fd (!i) .eof := by
        have hget' : ((m.take c.fd i).hub i).clients[ci]? = some c := hget
        unfold LinkMesh.close
        rw [hget']
        rfl
      rw [hclose]
      exact hm.takeClosed hget
    -- the other side's greeting
    | hello =>
      dsimp only
      -- a second one on a link that is up changes nothing
      split
      · rename_i hauth
        exact hm.again hw hc hauth hhead
      rename_i hauth
      rw [Bool.not_eq_true] at hauth
      -- the first one: the hub ends the connection, or the link takes over
      rcases handleHubv3_cases hg hget hauth hdial valid with hend | ht
      · have hgone : ((m.hub i).disconnectClient ci).clientByFd c.fd = none := by
          rcases clientByFd_cases ((m.hub i).disconnectClient ci) c.fd
            with ⟨hno, -⟩ | ⟨_, _, _, _, _, hsome⟩
          · exact hno
          · rw [connOf_disconnect hg hget, if_pos rfl] at hsome
            cases hsome
        rw [hend]
        dsimp only
        rw [hgone, if_pos (by rfl)]
        exact hm.takeClosed hget
      · have hstays : ((m.hub i).handleHubv3 ci valid).1.clientByFd c.fd ≠ none := by
          have hconn := ht.conns c.fd
          rcases clientByFd_cases ((m.hub i).handleHubv3 ci valid).1 c.fd
            with ⟨-, hnone⟩ | ⟨_, _, hsome, _⟩
          · rw [hnone, if_pos rfl] at hconn
            cases hconn
          · rw [hsome]
            exact Option.some_ne_none _
        generalize hres : (m.hub i).handleHubv3 ci valid = res at ht hstays ⊢
        obtain ⟨h, down⟩ := res
        dsimp only at ht hstays ⊢
        -- a link that took over stays open, and an older one with that hub is closed
        rw [if_neg (by rw [Option.isNone_iff_eq_none]; exact hstays)]
        cases down with
        | none =>
          refine hm.tookOver hget ht hw hhead (hub_setHub_self ..) (hub_setHub_other ..)
            (List.length_modify ..) fun k => ?_
          exact Table.getElem?_modify_ite ..
        | some old =>
          refine hm.tookOver hget ht hw hhead (hub_setHub_self ..)
            (hub_setHub_other ..) ?_ fun k => ?_
          · exact (List.length_modify ..).trans (List.length_modify ..)
          · have hne := (ht.lost old rfl).1
            show ((m.wires.modify c.fd _).modify old _)[k]? = _
            rw [Table.getElem?_modify_ite, Table.getElem?_modify_ite]
            by_cases hk : c.fd = k
            · rw [if_pos hk, if_pos hk, if_neg (by omega)]
            · rw [if_neg hk, if_neg hk]
              by_cases hold : old = k
              · rw [if_pos hold, if_pos (congrArg some hold)]
              · rw [if_neg hold, if_neg fun heq => hold (Option.some.inj heq)]

/-! ### Runs -/

/-- One event keeps the invariant. -/
theorem meshGood_step (hm : MeshGood m) (e : DialEvent) : MeshGood (m.step e) := by
  cases e with
  | dial i => exact hm.dial i
  | accept i fd => exact hm.accept i fd
  | finish i fd up sent => exact hm.finish i fd up sent
  | read i fd valid => exact hm.read i fd valid
  | close i fd =>
    simp only [LinkMesh.step]
    split
    · exact hm
    · exact hm.close i _

/-- A run does, by induction on its events. -/
theorem meshGood_run (hm : MeshGood m) (es : List DialEvent) : MeshGood (m.run es) := by
  induction es generalizing m with
  | nil => exact hm
  | cons e es ih => exact ih (meshGood_step hm e)

/-- It holds before anything happens. -/
theorem meshGood_start (uuid : Bool → Str) : MeshGood (LinkMesh.start uuid) := by
  have hnone : ∀ i fd c, connOf ((LinkMesh.start uuid).hub i) fd ≠ some c :=
    fun _ _ _ hc => (nomatch hc)
  refine ⟨fun i => ⟨List.nodup_nil, fun _ => rfl, fun hup => (nomatch hup), ?_, ?_, ?_, ?_, ?_⟩,
    fun fd w hw => ?_, ?_⟩
  · exact fun fd c hc => absurd hc (hnone i fd c)
  · exact fun fd c hc => absurd hc (hnone i fd c)
  · exact fun fd c hc => absurd hc (hnone i fd c)
  · exact fun fd c hc => absurd hc (hnone i fd c)
  · exact fun fd c hc => absurd hc (hnone i fd c)
  · cases hw
  · exact fun i fd c hc => absurd hc (hnone i fd c)

/-- With nothing on the way, what a hub has is the link of the other: an end that is not facing an
open one would have the end of a stream to read. -/
theorem MeshGood.faced (hm : MeshGood m) (hquiet : m.Quiet) (hc : connOf (m.hub i) fd = some c) :
    (m.hub (!i)).peer.fd = some fd := by
  obtain ⟨w, hw⟩ : ∃ w, m.wires[fd]? = some w :=
    ⟨_, List.getElem?_eq_some_iff.mpr ⟨hm.known i fd c hc, rfl⟩⟩
  have hgood := hm.wires fd w hw
  have hnothing : ∀ j, w.toward j = [] := hquiet.1 w (List.mem_of_getElem? hw)
  have hnodial : ∀ {j e}, connOf (m.hub j) fd = some e → e.dialing = false := fun he =>
    hquiet.2 _ _ (Table.mem_of_row he)
  -- it was accepted, for the hello of its dialler was read
  have hacc : w.accepted = true := by
    rw [← Bool.not_eq_false]
    intro hno
    rcases hgood.called hno with ⟨b, hb, hbd⟩ | hsome
    · rw [hnodial hb] at hbd
      cases hbd
    · exact hsome (hnothing _)
  rcases hgood.faces i c hc with ⟨d, hd, hdsup⟩ | heof | ⟨hno, -⟩
  · refine (hm.hubs (!i)).only fd d hd ?_ hdsup
    rw [← Bool.not_eq_false]
    intro hda
    have hinbound : d.inbound = true := by
      rw [← Bool.not_eq_false]
      intro hno
      rcases (hm.hubs (!i)).outbound fd d hd hno with hdd | hyes
      · rw [hnodial hd] at hdd
        cases hdd
      · rw [hda] at hyes
        cases hyes
    have hdialer : w.dialer = i := by
      rw [← Bool.not_not i]
      exact eq_not_of_ne ((hgood.sides (!i) d hd).1.mp hinbound)
    subst hdialer
    rcases hgood.waits d hd hda with ⟨b, hb, hbd⟩ | hsome
    · rw [hnodial hb] at hbd
      cases hbd
    · exact hsome (hnothing _)
  · rw [hnothing i] at heof
    exact (List.not_mem_nil heof).elim
  · rw [hacc] at hno
    cases hno

/-- In every state with nothing in flight, whatever was dialled, accepted, lost, read and closed
before and in which order, both hubs hold the peer to be down, or both name the same connection,
and at neither hub any other one that is not superseded is authenticated. -/
theorem link_agrees (uuid : Bool → Str) (es : List DialEvent)
    (hquiet : ((LinkMesh.start uuid).run es).Quiet) :
    (∀ i, (((LinkMesh.start uuid).run es).hub i).peer.connected = false)
      ∨ ∃ fd, ∀ i, (((LinkMesh.start uuid).run es).hub i).peer.connected = true
        ∧ (((LinkMesh.start uuid).run es).hub i).peer.fd = some fd
        ∧ ∀ c ∈ (((LinkMesh.start uuid).run es).hub i).clients,
          c.authenticated = true → c.superseded = false → c.fd = fd := by
  have hm := meshGood_run (meshGood_start uuid) es
  generalize (LinkMesh.start uuid).run es = m at hm hquiet ⊢
  have hup : ∀ {i fd}, (m.hub i).peer.fd = some fd → (m.hub i).peer.connected = true := by
    intro i fd hfd
    rw [← Bool.not_eq_false]
    intro hno
    rw [(hm.hubs i).down hno] at hfd
    cases hfd
  by_cases hall : ∀ i, (m.hub i).peer.connected = false
  · exact .inl hall
  · obtain ⟨i, hi⟩ := not_forall.mp hall
    obtain ⟨fd, c, hfd, hc, -⟩ := (hm.hubs i).link (by simpa using hi)
    have hother := hm.faced hquiet hc
    refine .inr ⟨fd, fun j => ?_⟩
    have hname : (m.hub j).peer.fd = some fd := by
      by_cases hj : j = i
      · rw [hj]
        exact hfd
      · rw [eq_not_of_ne hj]
        exact hother
    refine ⟨hup hname, hname, fun d hd hda hds => ?_⟩
    have hdname := (hm.hubs j).only d.fd d
      ((Table.row_eq_some_iff (hm.hubs j).fds).mpr ⟨hd, rfl⟩) hda hds
    exact Option.some.inj (hdname.symm.trans hname)

/-- Hub `false` has the lower uuid. -/
def twoUuids (i : Bool) : Str := if i then ['b'] else ['a']

/-- Both hubs dial, and the connection of the lower uuid stays. -/
def crossing : List DialEvent :=
  [.dial false, .dial true, .finish false 0 true true, .finish true 1 true true, .accept true 0,
  .accept false 1,
    .read true 0 true, .read false 1 true, .read true 1 true, .read false 1 true,
      .read true 1 true, .read false 1 true]

/-- Two hubs that dial each other at once: both keep the same link. It is the first one, which the
hub of the lower uuid dialled. -/
theorem crossing_agrees : (((LinkMesh.start twoUuids).run crossing).hub false).peer.fd = some 0
    ∧ (((LinkMesh.start twoUuids).run crossing).hub true).peer.fd = some 0
    ∧ ((∀ i, (((LinkMesh.start twoUuids).run crossing).hub i).peer.connected = false)
      ∨ ∃ fd, ∀ i, (((LinkMesh.start twoUuids).run crossing).hub i).peer.connected = true
        ∧ (((LinkMesh.start twoUuids).run crossing).hub i).peer.fd = some fd
        ∧ ∀ c ∈ (((LinkMesh.start twoUuids).run crossing).hub i).clients,
          c.authenticated = true → c.superseded = false → c.fd = fd) :=
  ⟨by decide +kernel, by decide +kernel, link_agrees twoUuids crossing (by decide +kernel)⟩

end IrcHub.Proofs
