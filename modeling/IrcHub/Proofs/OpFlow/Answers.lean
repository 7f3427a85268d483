import Mathlib.Data.List.TakeWhile
import IrcHub.Proofs.OpFlow.Ways
import IrcHub.Proofs.Upgrade.Prepare

/-!
# `IrcHub.Proofs.OpFlow.Answers`: requests that are made and frames that arrive

A request of a bot is either not recorded, and then at most the bot itself is told, or recorded
and sent to the peers (`processOpRequest_cases`). The record has a way at once, because one of
these peers takes the request (`request_inv`).

A frame that arrives takes itself off its link. A request that its hub takes is answered, so the
way goes on as an answer (`forwarded_inv`). An answer frees the slot of its id, and with it goes
the way (`answered_inv`). A failure is told to the bot on the descriptor of the slot, which is the
bot that made the request unless the descriptor was reused.

`readOpForward_id` and `readOpFailed_id` are the facts about the texts: an id that was read has no
bar and fits, so the hub that asked reads it back from a failure.
-/

set_option autoImplicit false

namespace IrcHub.Proofs

open IrcHub.Hub
open Str
open String (utf8Len)

variable {legs : Str → Int} {m m' : OpMesh} {x : Str}

/-! ### Frames on the links -/

/-- What was on a wire stays there when more is sent. -/
theorem mem_send {a b : Str} {outs : List OpOut} {s : SentFrame} (hs : s ∈ m.wire a b) :
    s ∈ (m.send x outs).wire a b := by
  simp only [OpMesh.send]
  split
  · exact List.mem_append_left _ hs
  · exact hs

/-- A frame for a peer goes on the link with the clocks of both ends. -/
theorem mem_send_of_out {k : Str} {outs : List OpOut} {frame : OpFrame}
    (hout : .peer k frame ∈ outs) : ⟨frame, m.clock x, m.clock k⟩ ∈ (m.send x outs).wire x k := by
  simp only [OpMesh.send, if_true]
  exact List.mem_append_right _ (List.mem_filterMap.mpr ⟨_, hout, by simp⟩)

/-- What was on a wire is there after a frame was taken off, or was that frame. Frames arrive in
the order they were sent, so it is the first of its link. -/
theorem mem_pop {y a b : Str} {s t : SentFrame} {rest : List SentFrame}
    (hwire : m.wire x y = s :: rest) (ht : t ∈ m.wire a b) :
    t ∈ (m.pop x y rest).wire a b ∨ (a = x ∧ b = y ∧ t = s) := by
  by_cases hab : a = x ∧ b = y
  · obtain ⟨rfl, rfl⟩ := hab
    rw [hwire] at ht
    rcases List.mem_cons.mp ht with rfl | ht
    · exact .inr ⟨rfl, rfl, rfl⟩
    · refine .inl ?_
      show t ∈ if _ then _ else _
      rw [if_pos ⟨rfl, rfl⟩]
      exact ht
  · refine .inl ?_
    show t ∈ if _ then _ else _
    rw [if_neg hab]
    exact ht

/-- A bot is told nothing but what is sent to it. -/
theorem mem_sendCmdToBot {c : OpClient} {cmd : OpCmd} {text : Str} {o : OpOut}
    (ho : o ∈ (sendCmdToBot c cmd text).1) : o = .bot c.connSerial cmd text := by
  unfold sendCmdToBot at ho
  split at ho
  · exact absurd ho List.not_mem_nil
  · exact List.mem_singleton.mp ho

/-! ### A bot asks -/

/-- What a request of a bot does. It does nothing to the hub, and tells at most the connection it
came on; or it is recorded and goes to the peers. In the second case every check of the source was
passed, and the record takes the first free slot. -/
theorem processOpRequest_cases (h : OpHub) (c : OpClient) (payload id : Str) (now : Int) :
    ((processOpRequest h c payload id now).1 = h ∧
      ∀ o ∈ (processOpRequest h c payload id now).2, (∃ serial text, o = .bot serial .grant text)
        ∨
        ∃ k text, clientByFd h c.fd = some k ∧ o = .bot k.connSerial .failed text) ∨
    ∃ target channel i, Recorded h c payload target channel ∧
      h.pendingOpRequests.findIdx? (fun p => !p.active) = some i ∧
      processOpRequest h c payload id now =
        ({ h with
            pendingOpRequests := h.pendingOpRequests.set i
              { requestId := trunc id 64, requesterUuid := trunc c.id 64
                targetUuid := trunc target 64, channel := trunc channel maxChan, originFd := c.fd
                timestamp := now, active := true }
            seenForwards := if opSeen h id then h.seenForwards
              else (opSeenAdd h id).seenForwards },
          forwardOpRequestToPeers h id c.id target channel
            (trunc (h.hostmask c.id) maxMaskLen) none now now false) := by
  have htell : ∀ text, ∀ o ∈ tellFailed h c.fd text,
      ∃ k text, clientByFd h c.fd = some k ∧ o = .bot k.connSerial .failed text := by
    intro text o ho
    unfold tellFailed at ho
    split at ho
    · rename_i k hk
      exact ⟨k, text, hk, mem_sendCmdToBot ho⟩
    · cases ho
  unfold processOpRequest
  cases hread : readOpRequest payload with
  -- a request that is not understood
  | none => exact .inl ⟨rfl, fun o ho => absurd ho List.not_mem_nil⟩
  | some tc =>
    obtain ⟨target, channel⟩ := tc
    simp only []
    cases hbot : botClient h target with
    -- the bot is here: it is asked, or the request is refused
    | some t =>
      simp only []
      split
      · exact .inl ⟨rfl, fun o ho => .inr (htell _ o ho)⟩
      · exact .inl ⟨rfl, fun o ho => .inl ⟨_, _, mem_sendCmdToBot ho⟩⟩
    -- the bot is elsewhere: the request needs a slot and a peer
    | none =>
      simp only []
      split
      · exact .inl ⟨rfl, fun o ho => .inr (htell _ o ho)⟩
      · rename_i hgo
        rw [Bool.or_eq_true, not_or, Bool.not_eq_true, Bool.not_eq_true] at hgo
        unfold addPendingOpRequest
        cases hslot : h.pendingOpRequests.findIdx? fun p => !p.active with
        | none => exact .inl ⟨rfl, fun o ho => .inr (htell _ o ho)⟩
        -- recorded
        | some i =>
          refine .inr ⟨target, channel, i, ⟨hread, hbot, hgo.1, hgo.2, by rw [hslot]; rfl⟩, rfl,
            ?_⟩
          have hsame : ∀ ps, opSeen { h with pendingOpRequests := ps } id = opSeen h id :=
            fun _ => rfl
          simp only [Option.map_some, hsame]
          cases hseen : opSeen h id with
          | true => rfl
          | false => rfl

/-- Taking an id in leaves every other id as unseen as it was. -/
theorem opSeen_add {h : OpHub} {id id' : Str} (hlen : utf8Len id < 64) (hne : id' ≠ id)
    (hunseen : opSeen h id' = false) :
    (!id'.isEmpty && (opSeenAdd h id).seenForwards.contains id') = false := by
  unfold opSeen at hunseen
  rw [Bool.and_eq_false_iff] at hunseen ⊢
  refine hunseen.imp (fun hempty => hempty) fun hnot => ?_
  rw [List.contains_eq_mem, decide_eq_false_iff_not] at hnot ⊢
  intro hmem
  have hmem := List.mem_of_mem_take hmem
  rw [trunc_of_lt hlen] at hmem
  rcases List.mem_cons.mp hmem with heq | hmem
  · exact hne heq
  · exact hnot hmem

/-- A request that is not recorded. Only the connection that asked can be told, and it is noted as
the one that made the request, so what it is told is told to the right one. -/
theorem refused_inv (h : OpInv legs m) {id : Str} {c : OpClient} {outs : List OpOut}
    (hc : c ∈ (m.hub x).clients)
    (houts : ∀ o ∈ outs, (∃ serial text, o = .bot serial .grant text) ∨
      ∃ k text, clientByFd (m.hub x) c.fd = some k ∧ o = .bot k.connSerial .failed text) :
    OpInv legs { (m.setHub x (m.hub x)).send x outs with
      made := m.made ++ [(x, id, c.connSerial)]
      told := m.told ++ toldOf x id outs } := by
  have hhub : ∀ y, (m.setHub x (m.hub x)).hub y = m.hub y := by
    intro y
    rw [setHub_hub]
    split
    · rename_i hy
      rw [hy]
    · rfl
  refine h.of_fewer (fun y i p hp _ => ?_) (fun y p _ hp => ?_) (fun y p k hp _ hk hbot => ?_)
    (fun _ hr => hr) (fun y => ?_) (fun y => ?_) (fun t ht => List.mem_append_left _ ht)
    (fun t ht => ?_) (fun t ht => ?_)
  · have hp' : ((m.setHub x (m.hub x)).hub y).pendingOpRequests[i]? = some p := hp
    rwa [hhub] at hp'
  · obtain ⟨w, hw⟩ := h.way y p hp
    refine ⟨w, hw.mono (fun a b _ s hs => mem_send hs) (fun hk => ?_) (fun k s f _ ht => ?_) rfl⟩
    · show (peerClient ((m.setHub x (m.hub x)).hub y) w.peer).isSome
      rwa [hhub]
    · refine ht.congr ?_ (fun hun => ?_) rfl
      · exact congrArg _ (hhub k)
      · show opSeen ((m.setHub x (m.hub x)).hub k) f.id = false
        rwa [hhub]
  · have hk' : clientByFd ((m.setHub x (m.hub x)).hub y) p.originFd = some k := hk
    rw [hhub] at hk'
    exact ⟨k, hk', hbot, rfl⟩
  · show ConnsOk ((m.setHub x (m.hub x)).hub y)
    rw [hhub]
    exact h.conns y
  · show _ ≤ ((m.setHub x (m.hub x)).hub y).nextConnSerial
    rw [hhub]
  · rcases List.mem_append.mp ht with hold | hnew
    · exact .inl hold
    · rw [List.mem_singleton.mp hnew]
      refine .inr ?_
      show c.connSerial < ((m.setHub x (m.hub x)).hub x).nextConnSerial
      rw [hhub]
      exact (h.conns x).serials c hc
  · rcases List.mem_append.mp ht with hold | hnew
    · exact .inl hold
    · obtain ⟨o, ho, hot⟩ := List.mem_filterMap.mp hnew
      rcases houts o ho with ⟨serial, text, rfl⟩ | ⟨k, text, hk, rfl⟩
      · cases hot
      · cases hot
        cases (clientByFd_of_mem (h.conns x).fds hc).symm.trans hk
        exact .inr (List.mem_append_right _ (List.mem_singleton.mpr rfl))

/-- A new record whose request is on the way to a hub that answers it. The id is no other waiting
request's, so no other slot is mistaken for it later. The hypotheses say what the step left alone
and what it added, so that this lemma does not depend on how the request is made. -/
theorem OpInv.of_record (h : OpInv legs m) {id : Str} {i : Nat} (p₀ : PendingOpRequest)
    {c : OpClient} (hc : c ∈ (m.hub x).clients) (hlen : utf8Len id < 64)
    (hfresh : ∀ y p, Waits m y p → p.requestId ≠ id) (hid : p₀.requestId = id)
    (hfd : p₀.originFd = c.fd)
    (hpend : (m'.hub x).pendingOpRequests = (m.hub x).pendingOpRequests.set i p₀)
    (hclients : ∀ y, (m'.hub y).clients = (m.hub y).clients)
    (hserial : ∀ y, (m'.hub y).nextConnSerial = (m.hub y).nextConnSerial)
    (hother : ∀ y, y ≠ x → (m'.hub y).pendingOpRequests = (m.hub y).pendingOpRequests)
    (hseen : ∀ y id', id' ≠ id → opSeen (m.hub y) id' = false → opSeen (m'.hub y) id' = false)
    (hwire : ∀ a b, ∀ s ∈ m.wire a b, s ∈ m'.wire a b) (hclock : m'.clock = m.clock)
    (hway : ∃ w, IsWay legs m' x p₀ w) (hmade : m'.made = m.made ++ [(x, id, c.connSerial)])
    (htold : m'.told = m.told) (hreused : m'.reused = m.reused) : OpInv legs m' := by
  -- what waits waited before, or is the new record
  have hwaits : ∀ {y p}, Waits m' y p → Waits m y p ∨ (y = x ∧ p = p₀) := by
    intro y p hp
    by_cases hy : y = x
    · subst hy
      obtain ⟨hmem, hact⟩ := hp
      rw [hpend] at hmem
      rcases List.mem_or_eq_of_mem_set hmem with hold | rfl
      · exact .inl ⟨hold, hact⟩
      · exact .inr ⟨rfl, rfl⟩
    · exact .inl ⟨hother y hy ▸ hp.1, hp.2⟩
  -- the table of the clients is the same on every hub
  have hbyFd : ∀ y n, clientByFd (m'.hub y) n = clientByFd (m.hub y) n := by
    intro y n
    unfold clientByFd
    rw [hclients]
  have hpeer : ∀ y k, peerClient (m'.hub y) k = peerClient (m.hub y) k := by
    intro y k
    unfold peerClient peerClients
    rw [hclients]
  refine ⟨fun y p hp => ?_, fun y p k hp hr hk hbot => ?_, fun y p hp => ?_,
    fun y z u v p q hp hq hpa hqa heq => ?_, fun y => ?_, fun t ht => ?_, ?_⟩
  -- a record that waited keeps its way, since no frame was taken and its id is new to nobody
  · rcases hwaits hp with hold | ⟨rfl, rfl⟩
    · obtain ⟨w, hw⟩ := h.way y p hold
      refine ⟨w, hw.mono (fun a b _ s hs => hwire a b s hs) (fun hk => hpeer y _ ▸ hk)
        (fun k s f hwk ht => ?_) (by rw [hclock])⟩
      subst hwk
      have hfid : f.id = p.requestId := hw.2.2.2.1
      exact ht.congr (hclients k) (hseen k f.id (hfid ▸ hfresh y p hold)) (by rw [hclock])
    · exact hway
  -- its owner: the request that was made for it
  · rw [hbyFd] at hk
    rw [hreused] at hr
    rw [hmade]
    rcases hwaits hp with hold | ⟨rfl, rfl⟩
    · exact List.mem_append_left _ (h.owner y p k hold hr hk hbot)
    · rw [hfd, clientByFd_of_mem (h.conns y).fds hc] at hk
      cases hk
      rw [hid]
      exact List.mem_append_right _ (List.mem_singleton.mpr rfl)
  · rcases hwaits hp with hold | ⟨rfl, rfl⟩
    · exact h.short y p hold
    · rwa [hid]
  -- two records of one id are one record
  · -- the new id is no other record's
    have hrow : ∀ (y : Str) (u : Nat) (p : PendingOpRequest),
        (m'.hub y).pendingOpRequests[u]? = some p → p.active = true →
        (y = x ∧ u = i ∧ p.requestId = id) ∨ (m.hub y).pendingOpRequests[u]? = some p := by
      intro y u p hp hact
      by_cases hy : y = x
      · subst hy
        rw [hpend, List.getElem?_set] at hp
        split at hp
        · rename_i hiu
          split at hp
          · cases hp
            exact .inl ⟨rfl, hiu.symm, hid⟩
          · cases hp
        · exact .inr hp
      · rw [hother y hy] at hp
        exact .inr hp
    have hold : ∀ (y : Str) (u : Nat) (p : PendingOpRequest),
        (m.hub y).pendingOpRequests[u]? = some p → p.active = true → p.requestId ≠ id :=
      fun y u p hp hact => hfresh y p ⟨List.mem_of_getElem? hp, hact⟩
    rcases hrow y u p hp hpa with ⟨hy, hu, hpid⟩ | hp'
    · rcases hrow z v q hq hqa with ⟨hz, hv, -⟩ | hq'
      · exact ⟨hy.trans hz.symm, hu.trans hv.symm⟩
      · exact absurd (heq.symm.trans hpid) (hold z v q hq' hqa)
    · rcases hrow z v q hq hqa with ⟨-, -, hqid⟩ | hq'
      · exact absurd (heq.trans hqid) (hold y u p hp' hpa)
      · exact h.uniq y z u v p q hp' hq' hpa hqa heq
  -- the connections and the serials, which the step leaves alone
  · refine ⟨hclients y ▸ (h.conns y).fds, fun k hk => ?_⟩
    rw [hserial]
    exact (h.conns y).serials k (hclients y ▸ hk)
  · rw [hserial]
    rw [hmade] at ht
    rcases List.mem_append.mp ht with hold | hnew
    · exact h.made t hold
    · rw [List.mem_singleton.mp hnew]
      exact (h.conns x).serials c hc
  · rw [htold, hmade]
    exact fun t ht => List.mem_append_left _ (h.told t ht)

/-- Requests to peers are no words to a bot. -/
theorem toldOf_forward (h : OpHub) (x id requester target channel mask : Str)
    (exclude : Option Nat) (ts now : Int) (split : Bool) :
    toldOf x id (forwardOpRequestToPeers h id requester target channel mask exclude ts now split)
      = [] := by
  unfold toldOf forwardOpRequestToPeers
  rw [List.filterMap_eq_nil_iff]
  intro o ho
  obtain ⟨c, -, rfl⟩ := List.mem_map.mp ho
  rfl

/-- A peer a request goes to is a peer. -/
theorem opPeers_sub (h : OpHub) (target : Str) (exclude : Option Nat) (split : Bool) :
    ∀ c ∈ (opPeers h target exclude split).1, c ∈ peerClients h := by
  unfold opPeers
  intro c hc
  split at hc
  · rename_i k hroute
    cases List.mem_singleton.mp hc
    split at hroute
    · cases hroute
    · unfold opRoutePeer at hroute
      split at hroute
      · cases hroute
      · exact List.mem_of_find?_eq_some hroute
  · exact List.mem_of_mem_filter hc

/-- A bot asks. What is recorded has a way: one of the peers the request goes to takes it, and the
request is on the link to that peer since now. -/
theorem request_inv (hlegs : ∀ id, 0 ≤ legs id) (h : OpInv legs m) {fd : Nat} {payload : Str}
    {random : Fin 8 → UInt8} (hok : OpStepOk legs m (.request x fd payload random)) :
    OpInv legs (opStep m (.request x fd payload random)) := by
  cases hc : clientByFd (m.hub x) fd with
  | none => simpa only [opStep, hc] using h
  | some c =>
    -- the hub hears only an authenticated bot
    by_cases hbot : c.typ = .bot ∧ c.authenticated
    · have hmem : c ∈ (m.hub x).clients := (clientByFd_spec hc).1
      have hlen : utf8Len (generateRequestId random) < 64 := by
        have := (requestId_plain random).2
        omega
      simp only [opStep, hc, if_pos hbot]
      rcases processOpRequest_cases (m.hub x) c payload (generateRequestId random) (m.clock x)
        with
        -- refused: nothing is recorded
        ⟨hsame, houts⟩ | ⟨target, channel, i, hrec, hslot, heq⟩
      · rw [hsame]
        exact refused_inv h hmem houts
      -- recorded: a peer that the request goes to takes it
      · obtain ⟨hfresh, k, hk, hkx, f, hread, hid, htakes⟩ := hok.answers c target channel hc hrec
        obtain ⟨peer, hpeer, rfl⟩ := List.mem_map.mp hk
        rw [heq]
        let p₀ : PendingOpRequest :=
          { requestId := trunc (generateRequestId random) 64, requesterUuid := trunc c.id 64
            targetUuid := trunc target 64, channel := trunc channel maxChan, originFd := c.fd
            timestamp := m.clock x, active := true }
        -- the new record is the one slot that changed
        refine h.of_record p₀ hmem hlen hfresh (i := i) (trunc_of_lt hlen) rfl ?_ (fun y => ?_)
          (fun y => ?_) (fun y hy => ?_) (fun y id' hne hunseen => ?_)
          (fun a b s hs => mem_send hs) rfl ⟨.going peer.id _ f, ?_, mem_send_of_out
            (List.mem_map.mpr ⟨peer, hpeer, rfl⟩), ⟨_, rfl, ?_⟩, ?_, ?_, ?_, ?_⟩ rfl ?_ rfl
        · show ((m.setHub x _).hub x).pendingOpRequests = _
          rw [setHub_hub, if_pos rfl]
        · show ((m.setHub x _).hub y).clients = _
          rw [setHub_hub]
          split
          · rename_i hy
            rw [hy]
          · rfl
        · show ((m.setHub x _).hub y).nextConnSerial = _
          rw [setHub_hub]
          split
          · rename_i hy
            rw [hy]
          · rfl
        · show ((m.setHub x _).hub y).pendingOpRequests = _
          rw [setHub_hub, if_neg hy]
        · show opSeen ((m.setHub x _).hub y) id' = false
          rw [setHub_hub]
          split
          · rename_i hy
            subst hy
            show (!id'.isEmpty && List.contains (if _ then _ else _) id') = false
            split
            · exact hunseen
            · exact opSeen_add hlen hne hunseen
          · exact hunseen
        · show (peerClient ((m.setHub x _).hub x) peer.id).isSome
          rw [setHub_hub, if_pos rfl]
          exact find?_isSome_of_mem (opPeers_sub _ _ _ _ peer hpeer) (decide_eq_true rfl)
        -- the frame on the link carries the request, under the id of the record
        · rw [ite_self]
          exact hread
        · exact hid.trans (trunc_of_lt hlen).symm
        · -- the hub that answers is another one
          have hhub : ∀ h', (m.setHub x h').hub peer.id = m.hub peer.id := fun h' => by
            rw [setHub_hub, if_neg hkx]
          refine htakes.congr ?_ (fun hun => ?_) rfl
          · show ((m.setHub x _).hub peer.id).clients = _
            rw [hhub]
          · show opSeen ((m.setHub x _).hub peer.id) _ = false
            rwa [hhub]
        -- it was sent now, so no leg of the way has begun
        · exact Int.le_refl _
        · show m.clock x - m.clock x ≤ _
          rw [Int.sub_self]
          exact hlegs _
        · rw [toldOf_forward, List.append_nil]
    · simp only [opStep, hc, if_neg hbot]
      exact h

/-! ### A request arrives -/

/-- What a request from a peer does to a hub: nothing, or its id is seen. The grant and the
failure are frames, and are spoken of below. -/
theorem processForwardOpRequest_hub (h : OpHub) (c : OpClient) (payload : Str) (now : Int) :
    (processForwardOpRequest h c payload now).1 = h ∨
      ∃ f, readOpForward payload = some f ∧ opSeen h f.id = false ∧ opExpired f now = false ∧
        (processForwardOpRequest h c payload now).1 = opSeenAdd h f.id := by
  unfold processForwardOpRequest
  cases hread : readOpForward payload with
  | none => exact .inl rfl
  | some f =>
    simp only []
    split
    · exact .inl rfl
    · rename_i hgo
      rw [Bool.or_eq_true, not_or, Bool.not_eq_true, Bool.not_eq_true] at hgo
      refine .inr ⟨f, rfl, hgo.2, hgo.1, ?_⟩
      split
      · split <;> rfl
      · split <;> rfl

/-- The id of a request is a field of up to 63 bytes. It is not empty, and it has no bar because
the field ends at one. -/
theorem readOpForward_id {payload : Str} {f : OpForward} (h : readOpForward payload = some f) :
    f.id = takeBytes 63 (payload.takeWhile (· != '|')) ∧ f.id ≠ [] := by
  have hset : ∀ fmt, sscanf payload (.set 63 :: fmt) =
      if (takeBytes 63 (payload.takeWhile (· != '|'))).isEmpty then []
      else .s (takeBytes 63 (payload.takeWhile (· != '|'))) ::
        sscanf (payload.drop (takeBytes 63 (payload.takeWhile (· != '|'))).length) fmt :=
    fun fmt => by rw [sscanf]
  unfold readOpForward at h
  rw [hset] at h
  by_cases hne : (takeBytes 63 (payload.takeWhile (· != '|'))).isEmpty
  · rw [if_pos hne] at h
    cases h
  · rw [if_neg hne] at h
    simp only [] at h
    split at h
    · rename_i id requester target channel rest heq
      cases h
      have hid : id = .s (takeBytes 63 (payload.takeWhile (· != '|'))) :=
        (List.cons.inj heq).1.symm
      subst hid
      exact ⟨rfl, fun hnil => hne (List.isEmpty_iff.mpr hnil)⟩
    · cases h

/-- An id without a bar is read back from a failure. -/
theorem readOpFailed_id {id text : Str} (hbar : '|' ∉ id) (hne : id ≠ [])
    (hlen : utf8Len id ≤ 63) :
    (readOpFailed (id ++ '|' :: text)).map (·.1) = some id := by
  have htake : takeBytes 63 ((id ++ '|' :: text).takeWhile (· != '|')) = id := by
    rw [List.takeWhile_append_of_pos, List.takeWhile_cons_of_neg (by decide), List.append_nil]
    · exact takeBytes_of_le hlen
    · intro c hc
      simp only [bne_iff_ne, ne_eq]
      exact fun heq => hbar (heq ▸ hc)
  unfold readOpFailed
  rw [htake]
  have hempty : id.isEmpty = false := List.isEmpty_eq_false_iff.mpr hne
  simp only [hempty, Bool.false_eq_true, if_false, List.drop_left]
  rfl

/-- A hub that takes a request answers the peer it came from: with the grant once the target's
lane took it, or with a failure where no hostmask is known. That the lane has room is part of
`Takes`; where it is full the source sends neither. -/
theorem processForwardOpRequest_answer (h : OpInv legs m) {y payload : Str} {f : OpForward}
    {c : OpClient} (hc : peerClient (m.hub y) x = some c) (hread : readOpForward payload = some f)
    (ht : Takes m x y f) :
    ∃ frame, .peer x frame ∈ (processForwardOpRequest (m.hub y) c payload (m.clock y)).2 ∧
      Answers frame f.id := by
  obtain ⟨hmem, -, hid⟩ := peerClient_spec hc
  obtain ⟨t, hbot, hroom⟩ := ht.target
  have hbot' : botClient (opSeenAdd (m.hub y) f.id) f.target = some t := hbot
  have hfd : clientByFd (opSeenAdd (m.hub y) f.id) c.fd = some c :=
    clientByFd_of_mem (h.conns y).fds hmem
  unfold processForwardOpRequest
  rw [hread]
  simp only [ht.inTime, ht.unseen, ht.plain, Bool.or_self, Bool.false_eq_true, if_false, hbot']
  obtain ⟨hfid, hne⟩ := readOpForward_id hread
  have hbar : '|' ∉ f.id := by
    rw [hfid]
    intro hmem
    have hbang := List.mem_takeWhile_imp ((takeBytes_isPrefix _ _).subset hmem)
    simp at hbang
  have hlen : utf8Len f.id ≤ 63 := by
    rw [hfid]
    exact utf8Len_takeBytes_le _ _
  unfold serveOp answerPeer sendCmdToBot
  rw [hfd, hroom]
  split
  · refine ⟨_, List.mem_singleton.mpr (by rw [hid]), ?_⟩
    show (readOpFailed _).map (·.1) = some f.id
    rw [trunc_of_lt]
    · exact readOpFailed_id hbar hne hlen
    · have htext : utf8Len ('|' :: "No hostmask found".toList) = 18 := by decide
      rw [String.utf8Len_append, htext]
      omega
  · simp only [Bool.false_eq_true, if_false, if_true]
    exact ⟨.grant f.id, List.mem_append_right _ (List.mem_singleton.mpr (by rw [hid])), rfl⟩

/-- A request arrives. A way that the step does not break goes on as it was, or as the answer of
the hub that took the request. If the request that arrives is the one of the way, then the hub
takes it, by `Takes`, and the answer it sends is the new way. -/
theorem forwarded_inv (hlegs : ∀ id, legs id ≤ opForwardTtlSeconds) (h : OpInv legs m)
    {y payload : Str} {s₀ : SentFrame} {rest : List SentFrame} {c : OpClient}
    (hok : OpStepOk legs m (.deliver x y)) (hwire : m.wire x y = s₀ :: rest)
    (hframe : s₀.frame = .request payload) (hc : peerClient (m.hub y) x = some c) :
    OpInv legs (opReceive (m.pop x y rest) y c (.request payload)) := by
  -- only the hub that the frame arrives at changes, and of it only the requests it has seen
  have hhub : ∀ z, (opReceive (m.pop x y rest) y c (.request payload)).hub z
      = if z = y then (processForwardOpRequest (m.hub y) c payload (m.clock y)).1 else m.hub z :=
    fun _ => rfl
  have hsame : ∀ z,
      ((opReceive (m.pop x y rest) y c (.request payload)).hub z).clients = (m.hub z).clients ∧
      ((opReceive (m.pop x y rest) y c (.request payload)).hub z).pendingOpRequests
        = (m.hub z).pendingOpRequests ∧
      ((opReceive (m.pop x y rest) y c (.request payload)).hub z).nextConnSerial
        = (m.hub z).nextConnSerial := by
    intro z
    rw [hhub]
    split
    · rename_i hz
      subst hz
      rcases processForwardOpRequest_hub (m.hub z) c payload (m.clock z)
        with heq | ⟨f, -, -, -, heq⟩
      · rw [heq]
        exact ⟨rfl, rfl, rfl⟩
      · rw [heq]
        exact ⟨rfl, rfl, rfl⟩
    · exact ⟨rfl, rfl, rfl⟩
  have hpeer : ∀ z k, peerClient ((opReceive (m.pop x y rest) y c (.request payload)).hub z) k
      = peerClient (m.hub z) k := by
    intro z k
    unfold peerClient peerClients
    rw [(hsame z).1]
  -- what each part of the invariant needs; the ways are the only part with an argument
  refine h.of_fewer (fun z i p hp _ => (hsame z).2.1 ▸ hp) (fun z p _ hp => ?_)
    (fun z p k _ _ hk hbot => ⟨k, ?_, hbot, rfl⟩) (fun _ hr => hr) (fun z => ?_)
    (fun z => Nat.le_of_eq (hsame z).2.2.symm) (fun _ ht => ht) (fun _ ht => .inl ht)
    (fun _ ht => .inl ht)
  · obtain ⟨w, hw, hspared⟩ := h.spared hok hp
    -- once `y` answers `z`, the record at `z` waits for the answer
    have hanswer : ∀ (f : OpForward) (s : SentFrame), x = z → readOpForward payload = some f →
      f.id = p.requestId →
        Takes m z y f → (peerClient (m.hub z) y).isSome → s.sentAt ≤ p.timestamp →
        m.clock z - s.sentAt ≤ legs p.requestId →
        ∃ w, IsWay legs (opReceive (m.pop x y rest) y c (.request payload)) z p w := by
      rintro f s rfl hread hid ht hlink hsent hleg
      obtain ⟨frame, hout, hans⟩ := processForwardOpRequest_answer h hc hread ht
      refine ⟨.coming y ⟨frame, m.clock y, m.clock x⟩, ?_, mem_send_of_out hout,
        hid ▸ hans, ?_, ?_⟩
      · rw [hpeer]
        exact hlink
      · show m.clock x - p.timestamp ≤ legs p.requestId
        omega
      · show m.clock x - m.clock x ≤ opForwardTtlSeconds - legs p.requestId
        have := hlegs p.requestId
        omega
    -- the way of a record after the step
    cases w with
    -- an answer on its way back: it is no request, so it is still there
    | coming k s =>
      obtain ⟨hl, hs, hans, hasked, hleg⟩ := hw
      rcases mem_pop hwire hs with hstay | ⟨rfl, rfl, rfl⟩
      · exact ⟨.coming k s, (hpeer z k).symm ▸ hl, mem_send hstay, hans, hasked, hleg⟩
      · rw [hframe] at hans
        exact hans.elim
    -- a request on its way
    | going k s f =>
      obtain ⟨hl, hs, hask, hid, ht, hsent, hleg⟩ := hw
      rcases mem_pop hwire hs with hstay | ⟨hzx, rfl, rfl⟩
      · -- the frame of the way is still on its link
        have hgo : Takes (opReceive (m.pop x y rest) y c (.request payload)) z k f →
            ∃ w, IsWay legs (opReceive (m.pop x y rest) y c (.request payload)) z p w :=
          fun ht' => ⟨.going k s f, (hpeer z k).symm ▸ hl, mem_send hstay, hask, hid, ht',
            hsent, hleg⟩
        by_cases hky : k = y
        · subst hky
          rcases processForwardOpRequest_hub (m.hub k) c payload (m.clock k) with
            heq | ⟨f₀, hread₀, -, htime₀, heq⟩
          · refine hgo (ht.congr (hsame k).1 (fun hun => ?_) rfl)
            rw [hhub, if_pos rfl, heq]
            exact hun
          · by_cases hids : f.id = f₀.id
            · -- its hub takes a request with the same id: from the hub that waits
              have hfrom : x = z ∧ Takes m z k f₀ := by
                by_contra hnot
                exact hspared ⟨rfl, s₀, payload, rest, f₀, hwire, hframe, hread₀, hids.symm,
                  htime₀, hnot⟩
              exact hanswer f₀ s hfrom.1 hread₀ (hids.symm.trans hid) hfrom.2 hl hsent hleg
            · refine hgo (ht.congr (hsame k).1 (fun hun => ?_) rfl)
              have hlen₀ : utf8Len f₀.id < 64 := by
                rw [(readOpForward_id hread₀).1]
                exact Nat.lt_of_le_of_lt (utf8Len_takeBytes_le _ _) (by decide)
              rw [hhub, if_pos rfl, heq]
              exact opSeen_add hlen₀ hids hun
        -- another hub takes a request, which this one has not seen
        · refine hgo (ht.congr (hsame k).1 (fun hun => ?_) rfl)
          rw [hhub, if_neg hky]
          exact hun
      · -- the frame of the way is the one that arrives
        obtain ⟨text, htext, hread⟩ := hask
        cases hframe.symm.trans htext
        exact hanswer f s hzx.symm hread hid ht hl hsent hleg
  · have hk' : clientByFd (m.hub z) p.originFd = some k := by
      unfold clientByFd at hk ⊢
      rwa [(hsame z).1] at hk
    exact hk'
  · refine ⟨(hsame z).1 ▸ (h.conns z).fds, fun k hk => ?_⟩
    rw [(hsame z).2.2]
    exact (h.conns z).serials k ((hsame z).1 ▸ hk)

/-! ### An answer arrives -/

/-- What a freed slot leaves: the other slots, and no connection changed. -/
theorem removePending_rows {h : OpHub} {id : Str} {j : Nat} {p : PendingOpRequest}
    (hp : (removePendingOpRequest h id).pendingOpRequests[j]? = some p) (hact : p.active = true) :
    h.pendingOpRequests[j]? = some p ∧ findPendingOpRequest h id ≠ some j := by
  unfold removePendingOpRequest at hp
  cases hfind : findPendingOpRequest h id with
  | none =>
    rw [hfind] at hp
    exact ⟨hp, by simp⟩
  | some i =>
    rw [hfind] at hp
    simp only [List.getElem?_modify, Option.map_eq_map, Option.map_eq_some_iff] at hp
    obtain ⟨q, hq, hqp⟩ := hp
    by_cases hij : i = j
    · -- the freed slot itself is not in use
      rw [if_pos hij] at hqp
      rw [← hqp] at hact
      cases hact
    · rw [if_neg hij] at hqp
      exact ⟨hqp ▸ hq, fun heq => hij (Option.some.inj heq)⟩

/-- A slot that is freed changes nothing else. -/
theorem removePending_same (h : OpHub) (id : Str) :
    (removePendingOpRequest h id).clients = h.clients ∧
      (removePendingOpRequest h id).seenForwards = h.seenForwards ∧
      (removePendingOpRequest h id).nextConnSerial = h.nextConnSerial := by
  unfold removePendingOpRequest
  split <;> exact ⟨rfl, rfl, rfl⟩

/-- No record with the id is left at the hub: ids of waiting requests are apart. -/
theorem OpInv.removed (h : OpInv legs m) {y id : Str} {j : Nat} {p : PendingOpRequest}
    (hp : (removePendingOpRequest (m.hub y) id).pendingOpRequests[j]? = some p)
    (hact : p.active = true) : p.requestId ≠ id := by
  intro hid
  obtain ⟨hj, hne⟩ := removePending_rows hp hact
  unfold findPendingOpRequest at hne
  cases hfind : (m.hub y).pendingOpRequests.findIdx? fun q =>
    q.active && decide (q.requestId = id) with
  | none =>
    have := List.findIdx?_eq_none_iff.mp hfind p (List.mem_of_getElem? hj)
    simp [hact, hid] at this
  | some i =>
    obtain ⟨hlt, hq, -⟩ := List.findIdx?_eq_some_iff_getElem.mp hfind
    rw [Bool.and_eq_true, decide_eq_true_eq] at hq
    obtain ⟨-, rfl⟩ := h.uniq y y i j _ p (List.getElem?_eq_getElem hlt) hj hq.1 hact
      (hq.2.trans hid.symm)
    exact hne hfind

/-- An answer arrives: the record it is for goes, and every other record keeps its way. A way of
another record is another frame, because a frame answers one id only. -/
theorem answered_inv {y : Str} (id : Str) (h : OpInv legs m) {s₀ : SentFrame}
    {rest : List SentFrame} (hwire : m.wire x y = s₀ :: rest) (hnot : ∀ f, ¬ Asks s₀.frame f)
    (hfor : ∀ p, Waits m y p → Answers s₀.frame p.requestId → p.requestId = id)
    (hhub : ∀ z, (m'.hub z) = if z = y then removePendingOpRequest (m.hub y) id else m.hub z)
    (hwire' : m'.wire = (m.pop x y rest).wire) (hclock : m'.clock = m.clock)
    (hmade : m'.made = m.made) (hreused : m'.reused = m.reused)
    (htold : ∀ t ∈ m'.told, t ∈ m.told ∨ t ∈ m.made) : OpInv legs m' := by
  have hsame : ∀ z, (m'.hub z).clients = (m.hub z).clients ∧
      (m'.hub z).seenForwards = (m.hub z).seenForwards ∧
      (m'.hub z).nextConnSerial = (m.hub z).nextConnSerial := by
    intro z
    rw [hhub]
    split
    · rename_i hz
      subst hz
      exact removePending_same _ _
    · exact ⟨rfl, rfl, rfl⟩
  have hpeer : ∀ z k, peerClient (m'.hub z) k = peerClient (m.hub z) k := by
    intro z k
    unfold peerClient peerClients
    rw [(hsame z).1]
  -- what each part of the invariant needs
  refine h.of_fewer (fun z i p hp hact => ?_) (fun z p hp' hp => ?_)
    (fun z p c _ _ hc hbot => ⟨c, ?_, hbot, rfl⟩) (fun r hr => hreused ▸ hr) (fun z => ?_)
    (fun z => Nat.le_of_eq (hsame z).2.2.symm) (fun t ht => hmade ▸ ht)
    (fun t ht => .inl (hmade ▸ ht))
    (fun t ht => (htold t ht).imp (fun hold => hold) fun hnew => hmade ▸ hnew)
  -- a record that still waits waited before
  · rw [hhub] at hp
    split at hp
    · rename_i hz
      subst hz
      exact (removePending_rows hp hact).1
    · exact hp
  · obtain ⟨w, hw⟩ := h.way z p hp
    -- the frame of the way is still on its link
    have hstays : ∀ a b s, ¬ (a = x ∧ b = y ∧ s = s₀) → s ∈ m.wire a b → s ∈ m'.wire a b :=
      fun a b s hne hs => hwire' ▸ (mem_pop hwire hs).resolve_right hne
    cases w with
    -- a request on its way is no answer
    | going k s f =>
      obtain ⟨hl, hs, hask, hid, ht, hsent, hleg⟩ := hw
      refine ⟨.going k s f, (hpeer z k).symm ▸ hl, hstays z k s ?_ hs, hask, hid,
        ht.congr (hsame k).1 (fun hun => ?_) (by rw [hclock]), hsent, hclock.symm ▸ hleg⟩
      · rintro ⟨-, -, rfl⟩
        exact hnot f hask
      · unfold opSeen
        rw [(hsame k).2.1]
        exact hun
    | coming k s =>
      obtain ⟨hl, hs, hans, hasked, hleg⟩ := hw
      refine ⟨.coming k s, (hpeer z k).symm ▸ hl, hstays k z s ?_ hs, hans, hasked,
        hclock.symm ▸ hleg⟩
      rintro ⟨-, rfl, rfl⟩
      -- the record it answers is gone
      obtain ⟨j, hj⟩ := List.getElem?_of_mem hp'.1
      rw [hhub, if_pos rfl] at hj
      exact h.removed hj hp'.2 (hfor p hp hans)
  · have hc' : clientByFd (m.hub z) p.originFd = some c := by
      unfold clientByFd at hc ⊢
      rwa [(hsame z).1] at hc
    exact hc'
  · refine ⟨(hsame z).1 ▸ (h.conns z).fds, fun c hc => ?_⟩
    rw [(hsame z).2.2]
    exact (h.conns z).serials c ((hsame z).1 ▸ hc)

/-- Without a slot for the request nothing is freed. -/
theorem removePending_of_none {h : OpHub} {id : Str} (hfind : findPendingOpRequest h id = none) :
    removePendingOpRequest h id = h := by
  unfold removePendingOpRequest
  rw [hfind]

/-- A grant frees the slot of its id. An id that is too long to be read is no record's. -/
theorem grant_hub (h : OpInv legs m) (y payload : Str) :
    processForwardOpGrant (m.hub y) payload = removePendingOpRequest (m.hub y) payload := by
  unfold processForwardOpGrant
  split
  · rename_i hlong
    refine (removePending_of_none ?_).symm
    refine List.findIdx?_eq_none_iff.mpr fun p hp => ?_
    rw [Bool.and_eq_false_iff]
    by_cases hact : p.active = true
    · refine .inr (decide_eq_false fun hid => ?_)
      have := h.short y p ⟨hp, hact⟩
      rw [hid] at this
      omega
    · exact .inl (Bool.not_eq_true _ ▸ hact)
  · rfl

/-- A failure frees the slot of its id. It is told to the bot on the descriptor of the slot, which
is the bot that made the request when the descriptor was not reused (`hreuse`). -/
theorem failed_hub (h : OpInv legs m) {y payload id reason : Str}
    (hread : readOpFailed payload = some (id, reason))
    (hreuse : ∀ p, Waits m y p → p.requestId = id → (y, p.requestId) ∉ m.reused) :
    (processForwardOpFailed (m.hub y) payload).1 = removePendingOpRequest (m.hub y) id ∧
      ∀ t ∈ toldOf y id (processForwardOpFailed (m.hub y) payload).2, t ∈ m.made := by
  unfold processForwardOpFailed
  rw [hread]
  simp only []
  cases hfind : findPendingOpRequest (m.hub y) id with
  | none => exact ⟨(removePending_of_none hfind).symm, fun t ht => absurd ht List.not_mem_nil⟩
  | some i =>
    refine ⟨rfl, fun t ht => ?_⟩
    obtain ⟨hlt, hq, -⟩ := List.findIdx?_eq_some_iff_getElem.mp hfind
    rw [Bool.and_eq_true, decide_eq_true_eq] at hq
    have hwaits : Waits m y (m.hub y).pendingOpRequests[i] := ⟨List.getElem_mem hlt, hq.1⟩
    simp only [List.getElem?_eq_getElem hlt, Option.bind_some] at ht
    cases hc : clientByFd (m.hub y) (m.hub y).pendingOpRequests[i].originFd with
    | none =>
      rw [hc] at ht
      exact absurd ht List.not_mem_nil
    | some c =>
      rw [hc] at ht
      simp only [] at ht
      split at ht
      · rename_i hbot
        obtain ⟨o, ho, hot⟩ := List.mem_filterMap.mp ht
        rw [mem_sendCmdToBot ho] at hot
        cases hot
        have hmade := h.owner y _ c hwaits (hreuse _ hwaits hq.2) hc hbot
        rwa [hq.2] at hmade
      · exact absurd ht List.not_mem_nil

/-- A frame that no record waits for is taken off its link, and nothing else changes. Frames of
this kind are requests that their hub drops, and answers that come late. -/
theorem popped_inv (h : OpInv legs m) {y : Str} {s₀ : SentFrame} {rest : List SentFrame}
    (hwire : m.wire x y = s₀ :: rest) (hask : ∀ f, Asks s₀.frame f → ¬ Takes m x y f)
    (hans : (peerClient (m.hub y) x).isSome → ∀ id, ¬ Answers s₀.frame id) :
    OpInv legs (m.pop x y rest) := by
  refine h.of_fewer (fun _ _ _ hp _ => hp) (fun z p _ hp => ?_)
    (fun _ _ c _ _ hc hbot => ⟨c, hc, hbot, rfl⟩) (fun _ hr => hr) h.conns
    (fun _ => Nat.le_refl _) (fun _ ht => ht) (fun _ ht => .inl ht) (fun _ ht => .inl ht)
  obtain ⟨w, hw⟩ := h.way z p hp
  cases w with
  | going k s f =>
    obtain ⟨hl, hs, hasks, hid, ht, hsent, hleg⟩ := hw
    refine ⟨.going k s f, hl, (mem_pop hwire hs).resolve_right ?_, hasks, hid, ?_, hsent, hleg⟩
    · rintro ⟨rfl, rfl, rfl⟩
      exact hask f hasks ht
    · exact ⟨ht.plain, ht.target, ht.unseen, ht.inTime, ht.linked⟩
  | coming k s =>
    obtain ⟨hl, hs, hanswers, hasked, hleg⟩ := hw
    refine ⟨.coming k s, hl, (mem_pop hwire hs).resolve_right ?_, hanswers, hasked, hleg⟩
    rintro ⟨rfl, rfl, rfl⟩
    exact hans hl _ hanswers

/-- A frame arrives. The cases are the kinds of frames, and whether the hub knows the link they
came on. -/
theorem deliver_inv (hlegs : ∀ id, legs id ≤ opForwardTtlSeconds) (h : OpInv legs m) {y : Str}
    (hok : OpStepOk legs m (.deliver x y)) : OpInv legs (opStep m (.deliver x y)) := by
  cases hwire : m.wire x y with
  | nil =>
    simp only [opStep, hwire]
    exact h
  | cons s₀ rest =>
    simp only [opStep, hwire, opArrive]
    have hhub : (m.pop x y rest).hub y = m.hub y := rfl
    rw [hhub]
    cases hc : peerClient (m.hub y) x with
    -- a frame on a link that this hub does not know is thrown away
    | none =>
      refine popped_inv h hwire (fun f _ ht => ?_) fun hlink => ?_
      · exact absurd ht.linked (by rw [hc]; simp)
      · exact absurd hlink (by rw [hc]; simp)
    | some c =>
      simp only []
      cases hframe : s₀.frame with
      -- a request: this hub may be the one that takes it
      | request payload => exact forwarded_inv hlegs h hok hwire hframe hc
      -- a grant ends the wait of the record it names
      | grant payload =>
        refine answered_inv payload h hwire (fun f => ?_) (fun p _ hans => ?_)
          (fun z => ?_) rfl rfl rfl rfl (fun t ht => .inl ht)
        · rintro ⟨text, htext, -⟩
          cases hframe.symm.trans htext
        · rw [hframe] at hans
          exact hans.symm
        · rw [← grant_hub h y payload]
          rfl
      -- a failure ends it too, if an id is read
      | failed payload =>
        have hnot : ∀ f, ¬ Asks s₀.frame f := by
          rintro f ⟨text, htext, -⟩
          cases hframe.symm.trans htext
        cases hread : readOpFailed payload with
        | none =>
          -- no id is read: the frame is no answer, and the hub does nothing
          have hpop := popped_inv h hwire (fun f hf => absurd hf (hnot f)) fun _ id hid => by
            rw [hframe, Answers, hread] at hid
            cases hid
          have hsame : opReceive (m.pop x y rest) y c (.failed payload) = m.pop x y rest := by
            have hself : ∀ u : OpMesh, u.setHub y (u.hub y) = u := by
              intro u
              unfold OpMesh.setHub
              have : (fun z => if z = y then u.hub y else u.hub z) = u.hub := by
                funext z
                split
                · rename_i hz
                  rw [hz]
                · rfl
              rw [this]
            simp only [opReceive, processForwardOpFailed, hread, toldOf, List.filterMap_nil,
              List.append_nil]
            rw [hself]
          rw [hsame]
          exact hpop
        -- an id is read: the record of that id hears the reason
        | some r =>
          obtain ⟨id, reason⟩ := r
          obtain ⟨hhub', htold⟩ := failed_hub (y := y) h hread fun p hp hid =>
            hok.answers s₀ payload rest p hwire hframe hp (by rw [hread, hid]; rfl)
          refine answered_inv id h hwire hnot (fun p _ hans => ?_)
            (fun z => ?_) rfl rfl rfl rfl ?_
          · rw [hframe, Answers, hread] at hans
            exact (Option.some.inj hans).symm
          · rw [← hhub']
            rfl
          · intro t ht
            have ht' : t ∈ m.told ++ toldOf y (((readOpFailed payload).map (·.1)).getD [])
              (processForwardOpFailed (m.hub y) payload).2 := ht
            rw [hread] at ht'
            rcases List.mem_append.mp ht' with hold | hnew
            · exact .inl hold
            · exact .inr (htold t hnew)

end IrcHub.Proofs
