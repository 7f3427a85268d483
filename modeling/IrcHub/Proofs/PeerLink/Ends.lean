import IrcHub.Hub.PeerLink
import IrcHub.Lib.Keyed

/-!
# `IrcHub.Proofs.PeerLink.Ends`: one hub, and one connection

A hub names at most one connection as its link, and every connection that is authenticated and not
superseded is the one it names (`HubLinked`). Of every connection one end can tell what the other
does: an end that is open faces one that is open and not superseded, or the end of the stream is
on the way (`WireGood`).

* `HubLinked.disconnect`, `HubLinked.append`, `HubLinked.dialled`: what the steps of one hub keep
* `handleHubv3_cases`: what becomes of a hello. The connection goes, or it is the link and the one
  before is superseded (`TookOver`).
* `WireGood.closed`, `WireGood.shutDown`, `WireGood.greeted` and those between them: what the
  events keep of one connection

Both predicates speak of a connection by its number, and not by its place in the table, because
places move when a connection is closed.
-/

set_option autoImplicit false

namespace IrcHub.Proofs

open IrcHub.Hub

/-! ### One hub -/

/-- The connection of a number, while the hub has it. -/
def connOf (h : LinkHub) (fd : Nat) : Option PeerConn := Table.row PeerConn.fd h.clients fd

/-- What holds of a hub between events. A hub that is down names no link; one that is up names a
connection it has, that is authenticated and not superseded, and is the only such one. -/
structure HubLinked (h : LinkHub) : Prop where
  fds : (h.clients.map PeerConn.fd).Nodup
  down : h.peer.connected = false → h.peer.fd = none
  link : h.peer.connected = true → ∃ fd c, h.peer.fd = some fd ∧ connOf h fd = some c
    ∧ c.authenticated = true ∧ c.superseded = false
  only : ∀ fd c, connOf h fd = some c → c.authenticated = true → c.superseded = false →
    h.peer.fd = some fd
  typ : ∀ fd c, connOf h fd = some c → c.authenticated = true ∨ c.dialing = true → c.typ = .hub
  dialing : ∀ fd c, connOf h fd = some c → c.dialing = true → c.authenticated = false
    ∧ c.inbound = false
  outbound : ∀ fd c, connOf h fd = some c → c.inbound = false → c.dialing = true
    ∨ c.authenticated = true
  pending : ∀ fd c, connOf h fd = some c → c.authenticated = false → c.superseded = false

variable {h : LinkHub} {ci fd : Nat} {c : PeerConn}

/-- A connection is that of its descriptor. -/
theorem connOf_of_getElem? (hg : HubLinked h) (hget : h.clients[ci]? = some c) :
    connOf h c.fd = some c := Table.row_of_getElem? hg.fds hget

/-- A hub that does not name a connection has none up. -/
theorem HubLinked.superseded_of_down (hg : HubLinked h) (hdown : h.peer.connected = false)
    (hc : connOf h fd = some c) (hauth : c.authenticated = true) : c.superseded = true := by
  by_contra hno
  have hname := hg.only fd c hc hauth (by simpa using hno)
  rw [hg.down hdown] at hname
  cases hname

/-- A connection that is closed is no longer there, and every other is. -/
theorem connOf_disconnect (hg : HubLinked h) (hget : h.clients[ci]? = some c) (k : Nat) :
    connOf (h.disconnectClient ci) k = if c.fd = k then none else connOf h k := by
  unfold LinkHub.disconnectClient
  rw [hget]
  exact Table.row_swapRemove hg.fds hget k

/-- What the hub knows of its link stays right when a connection is closed, the link or
another. -/
theorem HubLinked.disconnect (hg : HubLinked h) (ci : Nat) :
    HubLinked (h.disconnectClient ci) := by
  cases hget : h.clients[ci]? with
  | none =>
    unfold LinkHub.disconnectClient
    rw [hget]
    exact hg
  | some c =>
    have hconn := connOf_disconnect hg hget
    -- what the hub still has, it had
    have hhad : ∀ {fd d}, connOf (h.disconnectClient ci) fd = some d →
        c.fd ≠ fd ∧ connOf h fd = some d := by
      intro fd d hd
      rw [hconn] at hd
      split at hd
      · cases hd
      · rename_i hne
        exact ⟨hne, hd⟩
    have hpeer : (h.disconnectClient ci).peer
        = if h.peer.fd = some c.fd then { h.peer with connected := false, fd := none }
          else h.peer := by
      unfold LinkHub.disconnectClient
      rw [hget]
    have hclients : (h.disconnectClient ci).clients = Table.swapRemove h.clients ci := by
      unfold LinkHub.disconnectClient
      rw [hget]
    -- the table, the state of the link, its descriptor, and what holds of each connection
    refine ⟨?_, ?_, ?_, ?_, ?_, ?_, ?_, ?_⟩
    · rw [hclients]
      exact Table.nodup_swapRemove hg.fds (List.getElem?_eq_some_iff.mp hget).1
    -- a hub whose link went down knows none
    · rw [hpeer]
      split
      · exact fun _ => rfl
      · exact hg.down
    -- the link is another connection, so it stays
    · rw [hpeer]
      split
      · exact fun hup => (nomatch hup)
      · rename_i hne
        intro hup
        obtain ⟨fd, d, hfd, hd, hauth, hsup⟩ := hg.link hup
        refine ⟨fd, d, hfd, ?_, hauth, hsup⟩
        have hother : c.fd ≠ fd := by
          rintro rfl
          exact hne hfd
        rw [hconn, if_neg hother]
        exact hd
    · intro fd d hd hauth hsup
      obtain ⟨hne, hd'⟩ := hhad hd
      have hname := hg.only fd d hd' hauth hsup
      rw [hpeer, if_neg]
      · exact hname
      · intro heq
        rw [hname] at heq
        exact hne (Option.some.inj heq).symm
    · exact fun fd d hd => hg.typ fd d (hhad hd).2
    · exact fun fd d hd => hg.dialing fd d (hhad hd).2
    · exact fun fd d hd => hg.outbound fd d (hhad hd).2
    · exact fun fd d hd => hg.pending fd d (hhad hd).2

/-- A new connection that is not authenticated changes nothing about the link. -/
theorem HubLinked.append (hg : HubLinked h) (hnew : connOf h c.fd = none)
    (hauth : c.authenticated = false) (hsup : c.superseded = false)
    (hin : c.inbound = true ↔ c.dialing = false) (htyp : c.dialing = true → c.typ = .hub) :
    HubLinked { h with clients := h.clients ++ [c] }
      ∧ ∀ k, connOf { h with clients := h.clients ++ [c] } k
        = if c.fd = k then some c else connOf h k := by
  have hconn : ∀ k, connOf { h with clients := h.clients ++ [c] } k
      = if c.fd = k then some c else connOf h k := fun k => Table.row_append hnew k
  have hcases : ∀ {fd d}, connOf { h with clients := h.clients ++ [c] } fd = some d →
      d = c ∨ connOf h fd = some d := by
    intro fd d hd
    rw [hconn] at hd
    split at hd
    · exact .inl (Option.some.inj hd).symm
    · exact .inr hd
  refine ⟨⟨Table.nodup_append hg.fds hnew, hg.down, ?_, ?_, ?_, ?_, ?_, ?_⟩, hconn⟩
  · intro hup
    obtain ⟨fd, d, hfd, hd, hrest⟩ := hg.link hup
    refine ⟨fd, d, hfd, ?_, hrest⟩
    rw [hconn, if_neg]
    · exact hd
    · rintro rfl
      rw [hnew] at hd
      cases hd
  · intro fd d hd hda hds
    rcases hcases hd with rfl | hd
    · rw [hauth] at hda
      cases hda
    · exact hg.only fd d hd hda hds
  · intro fd d hd hda
    rcases hcases hd with rfl | hd
    · exact htyp (hda.resolve_left (by rw [hauth]; exact Bool.false_ne_true))
    · exact hg.typ fd d hd hda
  · intro fd d hd hdd
    rcases hcases hd with rfl | hd
    · refine ⟨hauth, ?_⟩
      rw [← Bool.not_eq_true, hin, hdd]
      exact Bool.noConfusion
    · exact hg.dialing fd d hd hdd
  · intro fd d hd hdi
    rcases hcases hd with rfl | hd
    · refine .inl ?_
      rw [← Bool.not_eq_false, ← hin, hdi]
      exact Bool.noConfusion
    · exact hg.outbound fd d hd hdi
  · intro fd d hd hda
    rcases hcases hd with rfl | hd
    · exact hsup
    · exact hg.pending fd d hd hda

/-- A connection changes in place, and the peer with it. -/
theorem connOf_modify (hg : HubLinked h) (hget : h.clients[ci]? = some c)
    {f : PeerConn → PeerConn} (hf : ∀ d, (f d).fd = d.fd) (p : LinkPeer) (k : Nat) :
    connOf { h with clients := h.clients.modify ci f, peer := p } k
      = if c.fd = k then some (f c) else connOf h k := Table.row_modify hg.fds hf hget k

/-- The dial of connection `c` came through, and its hello is out. The hub was down (`hdown`), so
`c` is the link now. -/
theorem HubLinked.dialled (hg : HubLinked h) (hget : h.clients[ci]? = some c)
    (hdial : c.dialing = true) (hdown : h.peer.connected = false) :
    HubLinked { h with
      clients := h.clients.modify ci fun d => { d with dialing := false, authenticated := true }
      peer := { h.peer with connected := true, fd := some c.fd } } := by
  have hf : ∀ d : PeerConn, ({ d with dialing := false, authenticated := true } : PeerConn).fd
    = d.fd := fun _ => rfl
  have hconn := connOf_modify hg hget hf { h.peer with connected := true, fd := some c.fd }
  have hc := connOf_of_getElem? hg hget
  have hauth := (hg.dialing c.fd c hc hdial).1
  have hcases : ∀ {fd d}, connOf { h with
      clients := h.clients.modify ci fun d => { d with dialing := false, authenticated := true }
      peer := { h.peer with connected := true, fd := some c.fd } } fd = some d →
      (c.fd = fd ∧ d = { c with dialing := false, authenticated := true })
      ∨ connOf h fd = some d := by
    intro fd d hd
    rw [hconn] at hd
    split at hd
    · rename_i heq
      exact .inl ⟨heq, (Option.some.inj hd).symm⟩
    · exact .inr hd
  refine ⟨?_, fun hno => (nomatch hno), fun _ => ?_, ?_, ?_, ?_, ?_, ?_⟩
  · show ((h.clients.modify ci _).map PeerConn.fd).Nodup
    rw [Table.map_key_modify hf]
    exact hg.fds
  · exact ⟨c.fd, _, rfl, (hconn c.fd).trans (if_pos rfl), rfl, hg.pending c.fd c hc hauth⟩
  · intro fd d hd hda hds
    rcases hcases hd with ⟨rfl, -⟩ | hd
    · rfl
    · rw [hg.superseded_of_down hdown hd hda] at hds
      cases hds
  · intro fd d hd hda
    rcases hcases hd with ⟨-, rfl⟩ | hd
    · exact hg.typ c.fd c hc (.inr hdial)
    · exact hg.typ fd d hd hda
  · intro fd d hd hdd
    rcases hcases hd with ⟨-, rfl⟩ | hd
    · cases hdd
    · exact hg.dialing fd d hd hdd
  · intro fd d hd hdi
    rcases hcases hd with ⟨-, rfl⟩ | hd
    · exact .inr rfl
    · exact hg.outbound fd d hd hdi
  · intro fd d hd hda
    rcases hcases hd with ⟨-, rfl⟩ | hd
    · cases hda
    · exact hg.pending fd d hd hda

/-- What a connection is when it goes makes no difference. -/
theorem disconnectClient_modify {f : PeerConn → PeerConn} (hf : ∀ d, (f d).fd = d.fd) (ci : Nat) :
    LinkHub.disconnectClient { h with clients := h.clients.modify ci f } ci
      = h.disconnectClient ci := by
  unfold LinkHub.disconnectClient
  cases hget : h.clients[ci]? with
  | none =>
    have hsame : h.clients.modify ci f = h.clients := by
      rw [List.modify_eq_set_getElem?, hget]
      rfl
    dsimp only
    rw [hsame, hget]
  | some c =>
    dsimp only
    rw [List.getElem?_modify_eq, hget, Table.swapRemove_modify]
    simp only [Option.map_eq_map, Option.map_some, hf]

/-- How a dial ends: the connection goes, or its hello is out and it is the link. -/
theorem finishDial_cases (hg : HubLinked h) (hget : h.clients[ci]? = some c) (up sent : Bool) :
    h.finishDial ci up sent = (h.disconnectClient ci, false)
      ∨ (h.peer.connected = false ∧ h.finishDial ci up sent = ({ h with
          clients := h.clients.modify ci fun d =>
            { d with dialing := false, authenticated := true }
          peer := { h.peer with connected := true, fd := some c.fd } }, true)) := by
  have hgone := disconnectClient_modify (h := h)
    (f := fun d : PeerConn => { d with dialing := false }) (fun _ => rfl) ci
  unfold LinkHub.finishDial
  rw [hget]
  dsimp only
  split
  · exact .inl (by rw [hgone])
  rename_i hdown
  simp only [Bool.or_eq_true, not_or, Bool.not_eq_true] at hdown
  split
  · exact .inl (by rw [hgone])
  split
  · -- the peer was up for the time of the handshake
    refine .inl ?_
    have hback : LinkHub.disconnectClient { h with
        clients := h.clients.modify ci fun d => { d with dialing := false }
        peer := { h.peer with connected := true, fd := some c.fd } } ci
          = h.disconnectClient ci := by
      rw [← hgone]
      unfold LinkHub.disconnectClient
      dsimp only
      rw [List.getElem?_modify_eq, hget]
      simp only [Option.map_eq_map, Option.map_some, if_true]
      have hsame : ({ h.peer with connected := false, fd := none } : LinkPeer) = h.peer := by
        rw [← hg.down hdown.2, ← hdown.2]
      rw [hsame, hg.down hdown.2, if_neg (by simp)]
    rw [hback]
  · refine .inr ⟨hdown.2, ?_⟩
    rw [Table.modify_modify]

/-- The hello of connection `c` was taken: it is the link, and the connection in `down` is so no
more. -/
structure TookOver (h : LinkHub) (c : PeerConn) (h' : LinkHub) (down : Option Nat) : Prop where
  linked : HubLinked h'
  conns : ∀ k, connOf h' k = if c.fd = k then some { c with typ := .hub, authenticated := true }
    else if down = some k then (connOf h k).map fun o => { o with superseded := true }
      else connOf h k
  lost : ∀ k, down = some k → c.fd ≠ k ∧ ∃ o, connOf h k = some o ∧ o.authenticated = true
    ∧ o.superseded = false

/-- The link of a hub that is up: the new connection loses against it, or it wins and the old one
is named. -/
theorem peerLinkTie_up (hg : HubLinked h) (hget : h.clients[ci]? = some c)
    (hauth : c.authenticated = false) (hup : h.peer.connected = true) :
    h.peerLinkTie ci = (false, none) ∨ ∃ oi o, h.peerLinkTie ci = (true, some oi)
      ∧ h.clients[oi]? = some o
      ∧ o.authenticated = true ∧ o.superseded = false ∧ h.peer.fd = some o.fd := by
  obtain ⟨fd, d, hfd, hd, hda, hds⟩ := hg.link hup
  obtain ⟨di, -, hdi⟩ := Table.getElem?_of_row hd
  have hne : di ≠ ci := by
    rintro rfl
    rw [hget] at hdi
    cases hdi
    rw [hauth] at hda
    cases hda
  have hdfd : d.fd = fd := Table.key_of_row hd
  unfold LinkHub.peerLinkTie
  rw [if_pos hup]
  cases hfind : h.clients.zipIdx.find? fun p => p.2 != ci && p.1.typ = .hub
    && h.peer.fd == some p.1.fd with
  | none =>
    have hno := List.find?_eq_none.mp hfind (d, di) (List.mem_zipIdx_iff_getElem?.mpr hdi)
    refine absurd ?_ hno
    simp [hne, hg.typ fd d hd (.inl hda), hfd, hdfd]
  | some p =>
    obtain ⟨o, oi⟩ := p
    have hoi : h.clients[oi]? = some o :=
      List.mem_zipIdx_iff_getElem?.mp (List.mem_of_find?_eq_some hfind)
    have hmatch := List.find?_some hfind
    simp only [Bool.and_eq_true, beq_iff_eq] at hmatch
    -- the descriptor is the link's, so the connection is
    have hod : o = d := by
      have ho := connOf_of_getElem? hg hoi
      have hsame : o.fd = fd := Option.some.inj (hmatch.2.symm.trans hfd)
      rw [hsame, hd] at ho
      exact (Option.some.inj ho).symm
    dsimp only
    split
    · exact .inr ⟨oi, o, rfl, hoi, hod ▸ hda, hod ▸ hds, hmatch.2⟩
    · exact .inl rfl

/-- Without a link there is no tie to break. -/
theorem peerLinkTie_down (hdown : h.peer.connected = false) (ci : Nat) :
    h.peerLinkTie ci = (true, none) := by
  unfold LinkHub.peerLinkTie
  rw [if_neg (by rw [hdown]; exact Bool.false_ne_true)]

/-- The state of the hub once a hello was taken. What the two branches of the source share. -/
theorem tookOver_of (hg : HubLinked h) (hc : connOf h c.fd = some c)
    (hauth : c.authenticated = false) (hdial : c.dialing = false) {h' : LinkHub}
    {down : Option Nat} (hfds : (h'.clients.map PeerConn.fd).Nodup)
    (hpeer : h'.peer = { h.peer with connected := true, fd := some c.fd })
    (hconns : ∀ k, connOf h' k = if c.fd = k
    then some { c with typ := .hub, authenticated := true }
      else if down = some k then (connOf h k).map fun o => { o with superseded := true }
        else connOf h k)
    (hlost : ∀ k, down = some k →
      c.fd ≠ k ∧ ∃ o, connOf h k = some o ∧ o.authenticated = true ∧ o.superseded = false)
    (hall : h.peer.connected = true → down = h.peer.fd) : TookOver h c h' down := by
  -- a connection is the one greeted, one that is marked now, or one left alone
  have hcases : ∀ {fd d}, connOf h' fd = some d →
    (c.fd = fd ∧ d = { c with typ := .hub, authenticated := true })
      ∨ (∃ o, connOf h fd = some o ∧ down = some fd ∧ d = { o with superseded := true })
      ∨ (down ≠ some fd ∧ connOf h fd = some d) := by
    intro fd d hd
    rw [hconns] at hd
    split at hd
    · rename_i heq
      exact .inl ⟨heq, (Option.some.inj hd).symm⟩
    split at hd
    · rename_i hdown
      obtain ⟨o, ho, rfl⟩ := Option.map_eq_some_iff.mp hd
      exact .inr (.inl ⟨o, ho, hdown, rfl⟩)
    · rename_i hdown
      exact .inr (.inr ⟨hdown, hd⟩)
  refine ⟨⟨hfds, fun hno => ?_, fun _ => ?_, ?_, ?_, ?_, ?_, ?_⟩, hconns, hlost⟩
  · rw [hpeer] at hno
    cases hno
  · refine ⟨c.fd, _, by rw [hpeer], (hconns c.fd).trans (if_pos rfl), rfl, ?_⟩
    exact hg.pending c.fd c hc hauth
  -- an authenticated one that is not marked is the link
  · intro fd d hd hda hds
    rcases hcases hd with ⟨rfl, -⟩ | ⟨o, -, -, rfl⟩ | ⟨hother, hd⟩
    · rw [hpeer]
    · cases hds
    · -- it was up before, so it was the link
      have hname := hg.only fd d hd hda hds
      have hup : h.peer.connected = true := by
        rw [← Bool.not_eq_false]
        intro hno
        rw [hg.down hno] at hname
        cases hname
      exact absurd ((hall hup).trans hname) hother
  -- what is authenticated is a hub
  · intro fd d hd hda
    rcases hcases hd with ⟨-, rfl⟩ | ⟨o, ho, -, rfl⟩ | ⟨-, hd⟩
    · rfl
    · exact hg.typ fd o ho hda
    · exact hg.typ fd d hd hda
  -- what dials was dialled
  · intro fd d hd hdd
    rcases hcases hd with ⟨-, rfl⟩ | ⟨o, ho, -, rfl⟩ | ⟨-, hd⟩
    · have hdd' : c.dialing = true := hdd
      rw [hdial] at hdd'
      cases hdd'
    · exact hg.dialing fd o ho hdd
    · exact hg.dialing fd d hd hdd
  · intro fd d hd hdi
    rcases hcases hd with ⟨-, rfl⟩ | ⟨o, ho, -, rfl⟩ | ⟨-, hd⟩
    · exact .inr rfl
    · exact hg.outbound fd o ho hdi
    · exact hg.outbound fd d hd hdi
  -- what is not authenticated is not marked
  · intro fd d hd hda
    rcases hcases hd with ⟨-, rfl⟩ | ⟨o, ho, hdown, rfl⟩ | ⟨-, hd⟩
    · cases hda
    · obtain ⟨-, o', ho', hoa, -⟩ := hlost fd hdown
      rw [ho] at ho'
      cases ho'
      have hda' : o.authenticated = false := hda
      rw [hoa] at hda'
      cases hda'
    · exact hg.pending fd d hd hda

/-- What becomes of a hello: the connection goes, or it is the link. -/
theorem handleHubv3_cases (hg : HubLinked h) (hget : h.clients[ci]? = some c)
    (hauth : c.authenticated = false) (hdial : c.dialing = false) (valid : Bool) :
    h.handleHubv3 ci valid = (h.disconnectClient ci, none)
      ∨ TookOver h c (h.handleHubv3 ci valid).1 (h.handleHubv3 ci valid).2 := by
  have hc := connOf_of_getElem? hg hget
  unfold LinkHub.handleHubv3
  rw [hget]
  dsimp only
  split
  · exact .inl rfl
  have hacc : ∀ d : PeerConn, ({ d with typ := .hub, authenticated := true } : PeerConn).fd
    = d.fd := fun _ => rfl
  -- no link with that hub: this connection becomes it
  cases hup : h.peer.connected with
  | false =>
    rw [peerLinkTie_down hup]
    dsimp only
    rw [Bool.not_true, if_neg Bool.false_ne_true, Option.bind_none]
    refine .inr (tookOver_of hg hc hauth hdial ?_ rfl (fun k => ?_) (fun k hk => (nomatch hk)) ?_)
    · show ((h.clients.modify ci _).map PeerConn.fd).Nodup
      rw [Table.map_key_modify hacc]
      exact hg.fds
    · rw [if_neg (show ¬ (none : Option Nat) = some k from fun hk => (nomatch hk))]
      exact Table.row_modify hg.fds hacc hget k
    · intro hno
      rw [hup] at hno
      cases hno
  -- a link with that hub is up, and the tie decides
  | true =>
    rcases peerLinkTie_up hg hget hauth hup with htie | ⟨oi, o, htie, hoi, hoa, hos, hname⟩
    -- the tie says that this one goes
    · rw [htie]
      exact .inl rfl
    -- the tie says that the old one goes, which is another connection
    · rw [htie]
      have hne : c.fd ≠ o.fd := by
        intro heq
        have ho := connOf_of_getElem? hg hoi
        rw [← heq, hc] at ho
        cases ho
        rw [hauth] at hoa
        cases hoa
      have hci : oi ≠ ci := by
        rintro rfl
        rw [hget] at hoi
        cases hoi
        exact hne rfl
      have hsup : ∀ d : PeerConn, ({ d with superseded := true } : PeerConn).fd = d.fd :=
        fun _ => rfl
      have hfds : ((h.clients.modify oi fun d => { d with superseded := true }).map
        PeerConn.fd).Nodup := by
        rw [Table.map_key_modify hsup]
        exact hg.fds
      have hget' : (h.clients.modify oi fun d => { d with superseded := true })[ci]?
        = some c := by
        rw [List.getElem?_modify_ne _ _ hci, hget]
      dsimp only
      rw [Bool.not_true, if_neg Bool.false_ne_true, Option.bind_some, hoi, Option.map_some]
      refine .inr (tookOver_of hg hc hauth hdial ?_ rfl (fun k => ?_) (fun k hk => ?_) fun _ =>
        hname.symm)
      -- one connection is marked and another becomes the link; no descriptor moves
      · show (((h.clients.modify oi _).modify ci _).map PeerConn.fd).Nodup
        rw [Table.map_key_modify hacc]
        exact hfds
      · have hrow := Table.row_modify hfds hacc hget' k
        rw [Table.row_modify hg.fds hsup hoi k] at hrow
        refine hrow.trans ?_
        by_cases hk : o.fd = k
        · subst hk
          rw [if_pos rfl, if_pos rfl, connOf_of_getElem? hg hoi]
          rfl
        · rw [if_neg hk, if_neg (show ¬ some o.fd = some k from fun heq =>
            hk (Option.some.inj heq))]
          rfl
      · cases hk
        exact ⟨hne, o, connOf_of_getElem? hg hoi, hoa, hos⟩

/-! ### One connection -/

/-- What holds of a connection between events, given what it is at each hub. `faces` is the part
that the result rests on. -/
structure WireGood (conn : Bool → Option PeerConn) (w : PeerWire) : Prop where
  /-- The hub that did not dial has it once it accepted it. -/
  sides : ∀ i c, conn i = some c → (c.inbound = true ↔ w.dialer ≠ i)
    ∧ (w.dialer ≠ i → w.accepted = true)
  /-- An end faces one that is open and not superseded, or it will read the end of the stream. -/
  faces : ∀ i c, conn i = some c → (∃ d, conn (!i) = some d ∧ d.superseded = false)
    ∨ LinkFrame.eof ∈ w.toward i
    ∨ (w.accepted = false ∧ w.dialer = i)
  /-- Who waits for a hello has one coming. -/
  waits : ∀ c, conn (!w.dialer) = some c → c.authenticated = false →
    (∃ d, conn w.dialer = some d ∧ d.dialing = true) ∨ w.toward (!w.dialer) ≠ []
  called : w.accepted = false → (∃ d, conn w.dialer = some d ∧ d.dialing = true)
    ∨ w.toward (!w.dialer) ≠ []
  owed : w.accepted = false →
    (∃ d, conn w.dialer = some d ∧ d.superseded = false) ∨ LinkFrame.eof ∈ w.toward (!w.dialer)

section Wire

variable {conn conn' : Bool → Option PeerConn} {w w' : PeerWire} {i : Bool} {d : PeerConn}

/-- A frame that is sent is last on its way. -/
theorem toward_put_self (w : PeerWire) (i : Bool) (f : LinkFrame) :
    (w.put i f).toward i = w.toward i ++ [f] :=
  Function.update_self ..

/-- Nothing changes the other way. -/
theorem toward_put_ne {i j : Bool} (h : j ≠ i) (w : PeerWire) (f : LinkFrame) :
    (w.put i f).toward j = w.toward j :=
  Function.update_of_ne h ..

/-- A frame that arrives is taken off its way. -/
theorem toward_pop_self (w : PeerWire) (i : Bool) : (w.pop i).toward i = (w.toward i).tail :=
  Function.update_self ..

/-- Nothing changes the other way. -/
theorem toward_pop_ne {i j : Bool} (h : j ≠ i) (w : PeerWire) : (w.pop i).toward j = w.toward j :=
  Function.update_of_ne h ..

/-- Of two hubs the one that is not this one is the other. -/
theorem eq_not_of_ne {i j : Bool} (h : j ≠ i) : j = !i := by
  cases i <;> cases j <;> first | rfl | exact absurd rfl h

/-- End `i` closes, whatever is on the way to it. The other end will read the end of the
stream. -/
theorem WireGood.closed (hw : WireGood conn w) (hc : conn i = some c) (hgone : conn' i = none)
    (hother : conn' (!i) = conn (!i)) (hdialer : w'.dialer = w.dialer)
    (hacc : w'.accepted = w.accepted) (heof : w'.toward (!i) = w.toward (!i) ++ [.eof]) :
    WireGood conn' w' := by
  have hmem : LinkFrame.eof ∈ w'.toward (!i) := by
    rw [heof]
    exact List.mem_append_right _ List.mem_cons_self
  have hhad : ∀ {j e}, conn' j = some e → j = !i ∧ conn j = some e := by
    intro j e he
    by_cases hj : j = i
    · rw [hj, hgone] at he
      cases he
    · have hj' := eq_not_of_ne hj
      subst hj'
      exact ⟨rfl, hother ▸ he⟩
  -- an end of a connection nobody accepted is the dialler's
  have hdial : w.accepted = false → w.dialer = i := by
    intro hno
    by_contra hne
    rw [(hw.sides i c hc).2 hne] at hno
    cases hno
  refine ⟨fun j e he => ?_, fun j e he => ?_, fun e he hea => ?_, fun hno => .inr ?_,
    fun hno => .inr ?_⟩
  · rw [hdialer, hacc]
    exact hw.sides j e (hhad he).2
  · rw [(hhad he).1]
    exact .inr (.inl hmem)
  · have hd : w.dialer = i := by
      have hj := (hhad he).1
      rw [hdialer] at hj
      exact Bool.not_inj hj
    rw [hdialer, hd]
    exact .inr (List.ne_nil_of_mem hmem)
  · rw [hdialer, hdial (hacc ▸ hno)]
    exact List.ne_nil_of_mem hmem
  · rw [hdialer, hdial (hacc ▸ hno)]
    exact hmem

/-- End `i`, which is authenticated, is superseded, and its stream ends for the other. -/
theorem WireGood.shutDown (hw : WireGood conn w) (hc : conn i = some c)
    (hauth : c.authenticated = true) (hsup : conn' i = some { c with superseded := true })
    (hother : conn' (!i) = conn (!i)) :
    WireGood conn' (w.put (!i) .eof) := by
  have hmem : LinkFrame.eof ∈ (w.put (!i) .eof).toward (!i) := by
    rw [toward_put_self]
    exact List.mem_append_right _ List.mem_cons_self
  have hhad : ∀ {j e}, conn' j = some e → (j = i ∧ e = { c with superseded := true })
    ∨ (j = !i ∧ conn j = some e) := by
    intro j e he
    by_cases hj : j = i
    · subst hj
      rw [hsup] at he
      exact .inl ⟨rfl, (Option.some.inj he).symm⟩
    · have hj' := eq_not_of_ne hj
      subst hj'
      exact .inr ⟨rfl, hother ▸ he⟩
  have hself : (w.put (!i) .eof).toward i = w.toward i := toward_put_ne (Bool.self_ne_not i) w _
  have hdial : w.accepted = false → w.dialer = i := by
    intro hno
    by_contra hne
    rw [(hw.sides i c hc).2 hne] at hno
    cases hno
  refine ⟨fun j e he => ?_, fun j e he => ?_, fun e he hea => ?_, fun hno => .inr ?_,
    fun hno => .inr ?_⟩
  · rcases hhad he with ⟨rfl, rfl⟩ | ⟨rfl, he⟩
    · exact hw.sides j c hc
    · exact hw.sides _ e he
  · rcases hhad he with ⟨rfl, rfl⟩ | ⟨rfl, he⟩
    · rw [hother, hself]
      exact hw.faces j c hc
    · exact .inr (.inl hmem)
  · rcases hhad he with ⟨hj, rfl⟩ | ⟨hj, he⟩
    · have hea' : c.authenticated = false := hea
      rw [hauth] at hea'
      cases hea'
    · have hd : w.dialer = i := Bool.not_inj hj
      show _ ∨ (w.put (!i) .eof).toward (!w.dialer) ≠ []
      rw [hd]
      exact .inr (List.ne_nil_of_mem hmem)
  · show (w.put (!i) .eof).toward (!w.dialer) ≠ []
    rw [hdial hno]
    exact List.ne_nil_of_mem hmem
  · show LinkFrame.eof ∈ (w.put (!i) .eof).toward (!w.dialer)
    rw [hdial hno]
    exact hmem

/-- The dial of end `i` came through, and its hello is on the way. -/
theorem WireGood.dialled (hw : WireGood conn w) (hc : conn i = some c) (hin : c.inbound = false)
    (hd : conn' i = some d) (hdin : d.inbound = false) (hdsup : d.superseded = false)
    (hother : conn' (!i) = conn (!i)) : WireGood conn' (w.put (!i) .hello) := by
  have hdial : w.dialer = i := by
    by_contra hne
    have hinbound := (hw.sides i c hc).1.mpr hne
    rw [hin] at hinbound
    cases hinbound
  have hne : (w.put (!i) .hello).toward (!w.dialer) ≠ [] := by
    rw [hdial, toward_put_self]
    exact List.append_ne_nil_of_right_ne_nil _ (List.cons_ne_nil _ _)
  have hself : (w.put (!i) .hello).toward i = w.toward i := toward_put_ne (Bool.self_ne_not i) w _
  refine ⟨fun j e he => ?_, fun j e he => ?_, fun e he hea => .inr hne, fun _ => .inr hne,
    fun _ => .inl ?_⟩
  · by_cases hj : j = i
    · subst hj
      rw [hd] at he
      cases he
      have hs := hw.sides j c hc
      rw [hin] at hs
      rw [hdin]
      exact hs
    · rw [eq_not_of_ne hj, hother, ← eq_not_of_ne hj] at he
      exact hw.sides j e he
  · by_cases hj : j = i
    · subst hj
      rw [hother, hself]
      exact hw.faces j c hc
    · rw [eq_not_of_ne hj, Bool.not_not]
      exact .inl ⟨d, hd, hdsup⟩
  · exact ⟨d, hdial ▸ hd, hdsup⟩

/-- End `i` reads a hello and is authenticated, as it may have been before. -/
theorem WireGood.greeted (hw : WireGood conn w) (hc : conn i = some c) (hd : conn' i = some d)
    (hin : d.inbound = c.inbound) (hsup : d.superseded = c.superseded)
    (hauth : d.authenticated = true) (hdial : d.dialing = c.dialing)
    (hother : conn' (!i) = conn (!i)) (hhead : (w.toward i).head? = some .hello) :
    WireGood conn' (w.pop i) := by
  -- the head is the hello, so an end of stream behind it stays
  have hkeep : LinkFrame.eof ∈ w.toward i → LinkFrame.eof ∈ (w.pop i).toward i := by
    intro hmem
    rw [toward_pop_self]
    cases htoward : w.toward i with
    | nil =>
      rw [htoward] at hmem
      exact (List.not_mem_nil hmem).elim
    | cons f rest =>
      rw [htoward] at hmem hhead
      cases hhead
      exact (List.mem_cons.mp hmem).resolve_left (fun heq => (nomatch heq))
  have hrest : (w.pop i).toward (!i) = w.toward (!i) := toward_pop_ne (Bool.not_ne_self i) w
  -- a call that was not accepted is read by its dialer
  have haccepted : w.accepted = false → w.dialer = i := by
    intro hno
    by_contra hne
    rw [(hw.sides i c hc).2 hne] at hno
    cases hno
  -- a connection after the step is the new one of `i`, or it is the other end's
  have hhad : ∀ {j e}, conn' j = some e → (j = i ∧ e = d) ∨ (j = !i ∧ conn j = some e) := by
    intro j e he
    by_cases hj : j = i
    · subst hj
      rw [hd] at he
      exact .inl ⟨rfl, (Option.some.inj he).symm⟩
    · have hj' := eq_not_of_ne hj
      subst hj'
      exact .inr ⟨rfl, hother ▸ he⟩
  -- the parts of the invariant, each for the end that read and for the other one
  refine ⟨fun j e he => ?_, fun j e he => ?_, fun e he hea => ?_, fun hno => ?_, fun hno => ?_⟩
  · rcases hhad he with ⟨rfl, rfl⟩ | ⟨rfl, he⟩
    · rw [hin]
      exact hw.sides j c hc
    · exact hw.sides _ e he
  · rcases hhad he with ⟨rfl, rfl⟩ | ⟨rfl, he⟩
    · rw [hother]
      rcases hw.faces j c hc with hface | heof | hnew
      · exact .inl hface
      · exact .inr (.inl (hkeep heof))
      · exact .inr (.inr hnew)
    · rw [hrest, Bool.not_not]
      rcases hw.faces (!i) e he with ⟨b, hb, hbsup⟩ | heof | hnew
      · rw [Bool.not_not, hc] at hb
        cases hb
        exact .inl ⟨d, hd, hsup.trans hbsup⟩
      · exact .inr (.inl heof)
      · exact .inr (.inr hnew)
  · rcases hhad he with ⟨-, rfl⟩ | ⟨hj, he⟩
    · rw [hauth] at hea
      cases hea
    · have hi : w.dialer = i := Bool.not_inj hj
      show (∃ b, conn' w.dialer = some b ∧ b.dialing = true) ∨ (w.pop i).toward (!w.dialer) ≠ []
      rcases hw.waits e he hea with ⟨b, hb, hbd⟩ | hsome
      · rw [hi, hc] at hb
        cases hb
        exact .inl ⟨d, hi ▸ hd, hdial.trans hbd⟩
      · rw [hi] at hsome ⊢
        rw [hrest]
        exact .inr hsome
  -- what was still owed to the dialer is owed to end `i`, which keeps its flags
  · have hi := haccepted hno
    show (∃ b, conn' w.dialer = some b ∧ b.dialing = true) ∨ (w.pop i).toward (!w.dialer) ≠ []
    rcases hw.called hno with ⟨b, hb, hbd⟩ | hsome
    · rw [hi, hc] at hb
      cases hb
      exact .inl ⟨d, hi ▸ hd, hdial.trans hbd⟩
    · rw [hi] at hsome ⊢
      rw [hrest]
      exact .inr hsome
  · have hi := haccepted hno
    show (∃ b, conn' w.dialer = some b ∧ b.superseded = false)
      ∨ LinkFrame.eof ∈ (w.pop i).toward (!w.dialer)
    rcases hw.owed hno with ⟨b, hb, hbs⟩ | heof
    · rw [hi, hc] at hb
      cases hb
      exact .inl ⟨d, hi ▸ hd, hsup.trans hbs⟩
    · rw [hi] at heof ⊢
      rw [hrest]
      exact .inr heof

/-- A frame for a connection end `i` does not have any more is lost. -/
theorem WireGood.lost (hw : WireGood conn w) (hnone : conn i = none)
    (hlate : w.dialer = i ∨ w.accepted = true) :
    WireGood conn (w.pop i) := by
  have hrest : (w.pop i).toward (!i) = w.toward (!i) := toward_pop_ne (Bool.not_ne_self i) w
  have hhad : ∀ {j e}, conn j = some e → j = !i := by
    intro j e he
    refine eq_not_of_ne ?_
    rintro rfl
    rw [hnone] at he
    cases he
  have hdial : w.accepted = false → w.dialer = i := fun hno =>
    hlate.resolve_right (by rw [hno]; exact Bool.false_ne_true)
  refine ⟨hw.sides, fun j e he => ?_, fun e he hea => ?_, fun hno => ?_, fun hno => ?_⟩
  · have hface := hw.faces j e he
    rw [hhad he] at hface ⊢
    rw [hrest]
    exact hface
  · have hi : w.dialer = i := Bool.not_inj (hhad he)
    have hwait := hw.waits e he hea
    show (∃ b, conn w.dialer = some b ∧ b.dialing = true) ∨ (w.pop i).toward (!w.dialer) ≠ []
    rw [hi] at hwait ⊢
    rw [hrest]
    exact hwait
  · have hcall := hw.called hno
    show (∃ b, conn w.dialer = some b ∧ b.dialing = true) ∨ (w.pop i).toward (!w.dialer) ≠ []
    rw [hdial hno] at hcall ⊢
    rw [hrest]
    exact hcall
  · have howe := hw.owed hno
    show (∃ b, conn w.dialer = some b ∧ b.superseded = false)
      ∨ LinkFrame.eof ∈ (w.pop i).toward (!w.dialer)
    rw [hdial hno] at howe ⊢
    rw [hrest]
    exact howe

/-- The hub that was dialled accepts the connection. -/
theorem WireGood.accepted (hw : WireGood conn w) (hdial : w.dialer ≠ i)
    (hnew : w.accepted = false) (hd : conn' i = some d) (hin : d.inbound = true)
    (hsup : d.superseded = false) (hother : conn' (!i) = conn (!i)) :
    WireGood conn' { w with accepted := true } := by
  have hi : w.dialer = !i := eq_not_of_ne hdial
  have hback : (!w.dialer) = i := by rw [hi, Bool.not_not]
  refine ⟨fun j e he => ?_, fun j e he => ?_, fun e he hea => ?_, fun hno => (nomatch hno),
    fun hno => (nomatch hno)⟩
  · by_cases hj : j = i
    · subst hj
      rw [hd] at he
      cases he
      exact ⟨⟨fun _ => hdial, fun _ => hin⟩, fun _ => rfl⟩
    · rw [eq_not_of_ne hj, hother, ← eq_not_of_ne hj] at he
      exact ⟨(hw.sides j e he).1, fun _ => rfl⟩
  · by_cases hj : j = i
    · subst hj
      rw [hother]
      rcases hw.owed hnew with ⟨b, hb, hbs⟩ | heof
      · exact .inl ⟨b, hi ▸ hb, hbs⟩
      · exact .inr (.inl (hback ▸ heof))
    · rw [eq_not_of_ne hj, Bool.not_not]
      exact .inl ⟨d, hd, hsup⟩
  · show (∃ b, conn' w.dialer = some b ∧ b.dialing = true) ∨ w.toward (!w.dialer) ≠ []
    rw [hi, hother, ← hi]
    exact hw.called hnew

/-- The hub that was dialled has no room for the connection, and the end of the stream goes
back. -/
theorem WireGood.refused (hw : WireGood conn w) (hdial : w.dialer ≠ i)
    (hnew : w.accepted = false) :
    WireGood conn (PeerWire.put { w with accepted := true } (!i) .eof) := by
  have hi : w.dialer = !i := eq_not_of_ne hdial
  have hnone : conn i = none := by
    cases hc : conn i with
    | none => rfl
    | some c =>
      have hacc := (hw.sides i c hc).2 hdial
      rw [hnew] at hacc
      cases hacc
  have hhad : ∀ {j e}, conn j = some e → j = !i := by
    intro j e he
    refine eq_not_of_ne ?_
    rintro rfl
    rw [hnone] at he
    cases he
  refine ⟨fun j e he => ?_, fun j e he => .inr (.inl ?_), fun e he _ => ?_, fun hno =>
    (nomatch hno), fun hno => (nomatch hno)⟩
  · exact ⟨(hw.sides j e he).1, fun _ => rfl⟩
  · rw [hhad he, toward_put_self]
    exact List.mem_append_right _ List.mem_cons_self
  · have hj := hhad he
    have hj' : (!w.dialer) = !i := hj
    rw [hi, Bool.not_not] at hj'
    exact absurd hj' (Bool.self_ne_not i)

end Wire

end IrcHub.Proofs
