import IrcHub.Hub.BotAuth
import IrcHub.Proofs.Bots.Revoked

/-!
# `IrcHub.Proofs.Bots.Auth`: which bots get a session

Which bots get a session. The first frame of the handshake looks whether the bot is live, the
second loads its key and does not look again. So a session is that of a live bot as long as no
change of the store takes the bot away between the two.

- `Registry.run`: a uuid of fewer than 60 bytes is never held by two records
- `botLive_of_authorized`: what the first frame looked at
- `handleBotAuthentication_cases`: what one frame can do, by the state of the handshake
- `AuthInv.step`: while a challenge is out, its bot is live
- `session_of_live_bot`: who gets a session, for every run of undisturbed steps
- `session_of_deleted_bot`: a bot deleted between the frames gets one

Nothing is assumed of the primitives. That the signature verified is part of the result, under the
key of the record, and what a signature is worth is for the primitives to say.

A uuid that is held by two records may be looked up at one and loaded from the other.
`Undisturbed` asks for one record, or for a uuid so short that no second one can come to be.
-/

set_option autoImplicit false

namespace IrcHub.Proofs

open IrcHub.Hub Str
open String (utf8Len)

/-! ### The uuids of the records -/

/-- The uuids a hub holds: cut to fit, and the short ones held once. -/
structure Registry (us : List Str) : Prop where
  unique : UuidsUnique us
  short : ∀ u ∈ us, utf8Len u < 64

/-- A bot with a new uuid is added. Its uuid is cut to its field, so it is short. -/
theorem Registry.append {s : HubState} {uuid : Str} (hs : Registry (botUuids s))
    (hno : botFind s uuid = none) : Registry (botUuids s ++ [trunc uuid 64]) := by
  refine ⟨hs.unique.append hno, ?_⟩
  intro u hu
  rcases List.mem_append.mp hu with hu | hu
  · exact hs.short u hu
  · rw [List.mem_singleton.mp hu]
    exact utf8Len_trunc_lt uuid (by decide)

/-- A line about a bot keeps the registry. -/
theorem Registry.updateEntry {clk : Clock} {s : HubState}
    {uuid key value extra op : Str} {ts : Int} {q : HubState × Bool} (hs : Registry (botUuids s))
    (h : updateEntry clk s uuid key value extra op ts = some q) : Registry (botUuids q.1) := by
  rcases botUuids_updateEntry h with heq | ⟨hno, heq⟩
  · rwa [heq]
  · rw [heq]
    exact hs.append (botFind_eq_none_iff.mpr hno)

/-- So does a bot that is made: its uuid has the shape of one, and was not there. -/
theorem Registry.createBot {clk : Clock} {s t : HubState} {nick uuid pubKey : Str}
    (hs : Registry (botUuids s)) (h : createBot clk s nick uuid pubKey = some t) :
    Registry (botUuids t) := by
  unfold Hub.createBot at h
  split at h
  · cases h
    exact hs
  rename_i hguard
  simp only [Bool.or_eq_true, not_or, Bool.not_eq_true, Option.isSome_eq_false_iff,
    Option.isNone_iff_eq_none] at hguard
  unfold addBotMemory at h
  split at h
  · cases h
    exact hs
  have huuids : botUuids (registered s uuid) = botUuids s ++ [trunc uuid 64] := by
    simp [botUuids, registered, newBot]
  have hnew : Registry (botUuids (registered s uuid)) := by
    rw [huuids]
    exact hs.append hguard.2
  simp only [Option.bind_eq_bind, Option.bind_eq_some_iff] at h
  obtain ⟨p, hp, q, hq, r, hr, hrt⟩ := h
  cases hrt
  exact ((hnew.updateEntry hp).updateEntry hq).updateEntry hr

/-- No step of a hub breaks it. The cases are the operations; only two of them add a record. -/
theorem Registry.run {clk : Clock} {s t : HubState} {op : BotOp} (hs : Registry (botUuids s))
    (h : op.run clk s = some t) : Registry (botUuids t) := by
  cases op with
  | update uuid key value extra op ts =>
    obtain ⟨q, hq, rfl⟩ := Option.map_eq_some_iff.mp h
    exact hs.updateEntry hq
  | merge inp =>
    cases h
    rw [botUuids, revokeMerge_bots]
    exact hs
  | create nick uuid pubKey => exact hs.createBot h
  | wiped uuid now =>
    cases h
    rw [botUuids, revokeMarkWiped_bots]
    exact hs
  | purge cutoff =>
    cases h
    have hsub : (executePurge clk s cutoff).bots.Sublist s.bots := by
      rw [(executePurge_bots clk s cutoff).1]
      exact (List.take_sublist _ _).trans List.filter_sublist
    exact ⟨hs.unique.sublist (hsub.map _), fun u hu => hs.short u ((hsub.map _).subset hu)⟩
  | elsewhere t =>
    cases h
    exact hs

/-! ### Live bots -/

/-- The record a hub finds for the uuid is active, and the uuid is not revoked. -/
def BotLive (s : HubState) (uuid : Str) : Prop :=
  (∃ b, s.bots.find? (fun b => b.uuid == uuid) = some b ∧ b.isActive = true) ∧
    isRevoked s uuid = false

/-- No two records hold the uuid. -/
def OneRecord (s : HubState) (uuid : Str) : Prop :=
  ∀ a ∈ s.bots, ∀ b ∈ s.bots, a.uuid = uuid → b.uuid = uuid → a = b

/-- A uuid has one record. It has to be short enough not to be cut. -/
theorem Registry.oneRecord {s : HubState} (hs : Registry (botUuids s)) {uuid : Str}
    (hshort : utf8Len uuid < 60) : OneRecord s uuid := by
  intro a ha b hb hau hbu
  obtain ⟨i, hi⟩ := List.mem_iff_getElem?.mp ha
  obtain ⟨j, hj⟩ := List.mem_iff_getElem?.mp hb
  have hij := hs.unique.index_eq hi hj (hau ▸ hshort) (hau.trans hbu.symm)
  subst hij
  exact Option.some.inj (hi.symm.trans hj)

/-- The first frame lets a bot through: it is live, and the connection has its uuid. `hone` makes
the record that was found live the one that the hub finds for the uuid. -/
theorem botLive_of_authorized {s : HubState} (hs : Registry (botUuids s)) {uuid : Str}
    (hone : OneRecord s uuid) (hrev : isRevoked s uuid = false)
    (hany : (s.bots.any fun b => b.uuid == uuid && b.isActive) = true) :
    trunc uuid 64 = uuid ∧ BotLive s uuid := by
  obtain ⟨b, hb, hok⟩ := List.any_eq_true.mp hany
  rw [Bool.and_eq_true, beq_iff_eq] at hok
  obtain ⟨hu, hact⟩ := hok
  refine ⟨trunc_of_lt (hu ▸ hs.short b.uuid (List.mem_map_of_mem hb)), ⟨?_, hrev⟩⟩
  cases hfind : s.bots.find? fun b => b.uuid == uuid with
  | none => exact absurd (beq_iff_eq.mpr hu) (List.find?_eq_none.mp hfind b hb)
  | some a =>
    have hau : a.uuid = uuid := by
      have hp := List.find?_some hfind
      exact beq_iff_eq.mp hp
    have hab := hone a (List.mem_of_find?_eq_some hfind) b hb hau hu
    exact ⟨a, rfl, hab ▸ hact⟩

/-! ### One frame -/

/-- A key that was earned changes the records as a store change does, and the connection is
granted. -/
theorem authGrant_spec {cr : BotCrypto} {io : AuthIo} {s : HubState} {c : BotConn}
    {key : List Nat} {p : HubState × Option BotConn} (hs : Registry (botUuids s))
    (h : authGrant cr io s c key = some p) :
    Registry (botUuids p.1) ∧ ∀ c' ∈ p.2, c' = c.granted key io.clk.now := by
  unfold authGrant at h
  split at h
  · cases h
    exact ⟨hs, fun c' hc' => by cases hc'⟩
  simp only [] at h
  split at h
  · cases h
    exact ⟨hs, fun c' hc' => by cases hc'; rfl⟩
  · obtain ⟨q, hq, rfl⟩ := Option.map_eq_some_iff.mp h
    exact ⟨hs.updateEntry hq, fun c' hc' => by cases hc'; rfl⟩

/-- The answer of a bot that retires changes no bot. -/
theorem retireAck_bots (cr : BotCrypto) (io : AuthIo) (s : HubState) (c : BotConn)
    (data : List Nat) :
    (retireAck cr io s c data).bots = s.bots := by
  unfold retireAck
  split
  · split
    · split
      · exact revokeMarkWiped_bots s c.id io.clk.now
      · rfl
    · rfl
  · rfl

/-- What one frame can do. A connection that is still there sent its uuid, or a signature that
earned a key; in every other case it is gone. -/
theorem handleBotAuthentication_cases {cr : BotCrypto} {io : AuthIo} {s : HubState} {c : BotConn}
    {data : List Nat} {p : HubState × Option BotConn} (hs : Registry (botUuids s))
    (h : handleBotAuthentication cr io s c data = some p) :
    Registry (botUuids p.1) ∧ ∀ c' ∈ p.2,
      (c.botAuthState = .idle ∧ p.1 = s ∧ authUuid io s c data = some c') ∨
        (c.botAuthState = .challengeSent ∧
          ∃ key, authSignature cr s c data = some key ∧ c' = c.granted key io.clk.now) := by
  unfold handleBotAuthentication at h
  split at h
  · cases h
    refine ⟨?_, fun c' hc' => by cases hc'⟩
    rw [botUuids, retireAck_bots]
    exact hs
  split at h
  · rename_i hidle
    simp only [Bool.and_eq_true, decide_eq_true_eq] at hidle
    cases h
    exact ⟨hs, fun c' hc' => .inl ⟨hidle.2, rfl, hc'⟩⟩
  split at h
  · rename_i hsent
    simp only [Bool.and_eq_true, decide_eq_true_eq] at hsent
    split at h
    · cases h
      exact ⟨hs, fun c' hc' => by cases hc'⟩
    · rename_i key hkey
      obtain ⟨hreg, hconn⟩ := authGrant_spec hs h
      exact ⟨hreg, fun c' hc' => .inr ⟨hsent.2, key, hkey, hconn c' hc'⟩⟩
  · cases h
    exact ⟨hs, fun c' hc' => by cases hc'⟩

/-- A uuid that was let through: the connection carries it, and knows whether it is revoked. The
uuid is the text of the frame, cut to its buffer. -/
theorem authUuid_spec {io : AuthIo} {s : HubState} {c c' : BotConn} {data : List Nat}
    (h : authUuid io s c data = some c') :
    c'.id = trunc (fromUtf8Lossy data) 64 ∧ c'.quarantine = isRevoked s (fromUtf8Lossy data) ∧
      c'.authenticated = c.authenticated ∧
      (c'.quarantine = false →
        (s.bots.any fun b => b.uuid == fromUtf8Lossy data && b.isActive) = true) := by
  unfold authUuid at h
  split at h
  · cases h
  simp only [] at h
  split at h
  · rename_i hok
    simp only [Option.bind_eq_bind, Option.bind_eq_some_iff] at h
    obtain ⟨challenge, -, eph, -, h⟩ := h
    split at h
    · cases h
      refine ⟨rfl, rfl, rfl, fun hq => ?_⟩
      have hq' : isRevoked s (fromUtf8Lossy data) = false := hq
      rwa [hq', Bool.false_or] at hok
    · cases h
  · cases h

/-- A signature that earned a key verified under the key the hub loaded. `hq` is that the
connection is not one of a revoked bot, whose key comes from the revoke list. -/
theorem authSignature_spec {cr : BotCrypto} {s : HubState} {c : BotConn} {data key : List Nat}
    (h : authSignature cr s c data = some key) (hq : c.quarantine = false) :
    ∃ combined, loadBotCombinedPub s c.id = some combined ∧
      cr.ed25519Verify (combined.take 32) (botTranscript c.id c.ephPub c.challenge) data
        = true := by
  unfold authSignature at h
  split at h
  · cases h
  simp only [hq, Bool.false_eq_true, if_false, Option.bind_eq_bind, Option.bind_eq_some_iff] at h
  obtain ⟨combined, hload, h⟩ := h
  refine ⟨combined, hload, ?_⟩
  split at h
  · cases h
  · rename_i hverify
    simpa using hverify

/-! ### Runs -/

/-- The hub waits for the signature of a bot it took for a live one. -/
def BotConn.AwaitsBot (c : BotConn) : Prop := c.botAuthState = .challengeSent
    ∧ c.quarantine = false

/-- What holds at every moment of an undisturbed run. -/
structure AuthInv (r : AuthRun) : Prop where
  registry : Registry (botUuids r.hub)
  live : ∀ c ∈ r.conn, BotConn.AwaitsBot c → BotLive r.hub c.id

/-- A step that takes no bot away under its handshake: a store change keeps a bot live whose
signature is awaited, and a uuid that arrives is held by one record, as one of fewer than 60 bytes
always is. -/
def Undisturbed (r : AuthRun) : AuthEvent → Prop
  | .store clk op =>
    ∀ c ∈ r.conn, BotConn.AwaitsBot c → BotLive r.hub c.id →
      ∀ s ∈ op.run clk r.hub, BotLive s c.id
  | .frame _ data =>
    ∀ c ∈ r.conn, c.botAuthState = .idle →
      utf8Len (fromUtf8Lossy data) < 60 ∨ OneRecord r.hub (fromUtf8Lossy data)

/-- A granted connection awaits nothing. -/
theorem not_awaitsBot_granted (c : BotConn) (key : List Nat) (now : Int) :
    ¬ BotConn.AwaitsBot (c.granted key now) := by
  intro h
  have hstate := h.1
  unfold BotConn.granted at hstate
  simp only [] at hstate
  split at hstate <;> cases hstate

/-- One step, if it leaves the bot of a pending login alone. A change of the store keeps a live
bot by `hok`, and a frame either begins a login, whose bot was just looked at, or ends one. -/
theorem AuthInv.step {cr : BotCrypto} {r r' : AuthRun} {ev : AuthEvent} (hr : AuthInv r)
    (hok : Undisturbed r ev) (h : r.step cr ev = some r') : AuthInv r' := by
  cases ev with
  | store clk op =>
    obtain ⟨s, hs, rfl⟩ := Option.map_eq_some_iff.mp h
    exact ⟨hr.registry.run hs, fun c hc hwait => hok c hc hwait (hr.live c hc hwait) s hs⟩
  | frame io data =>
    obtain ⟨s, conn⟩ := r
    unfold AuthRun.step at h
    cases conn with
    | none =>
      cases h
      exact hr
    | some c =>
      simp only [] at h
      split at h
      · cases h
        exact hr
      obtain ⟨p, hp, rfl⟩ := Option.map_eq_some_iff.mp h
      obtain ⟨hreg, hconn⟩ := handleBotAuthentication_cases hr.registry hp
      refine ⟨hreg, fun c' hc' hwait => ?_⟩
      rcases hconn c' hc' with ⟨hidle, hsame, huuid⟩ | ⟨-, key, -, rfl⟩
      · obtain ⟨hid, hq, -, hany⟩ := authUuid_spec huuid
        have hone : OneRecord s (fromUtf8Lossy data) := by
          rcases hok c rfl hidle with hshort | hone
          · exact hr.registry.oneRecord hshort
          · exact hone
        obtain ⟨hcut, hlive⟩ :=
          botLive_of_authorized hr.registry hone (hq.symm.trans hwait.2) (hany hwait.2)
        show BotLive p.1 c'.id
        rw [hsame, hid, hcut]
        exact hlive
      · exact absurd hwait (not_awaitsBot_granted c key io.clk.now)

/-- The signature verified under the key of an active record of the connection's uuid, which is
not revoked. -/
def LiveSession (cr : BotCrypto) (s : HubState) (c : BotConn) (data : List Nat) : Prop :=
  ∃ b ∈ s.bots, b.uuid = c.id ∧ b.isActive = true ∧ isRevoked s c.id = false ∧
    ∃ key, b.combinedPub = some key ∧
      cr.ed25519Verify (key.take 32) (botTranscript c.id c.ephPub c.challenge) data = true

/-- In a run that never takes a bot away under its handshake, a frame that makes a connection an
authenticated bot carries the signature of a live one.

`hok` is a condition on each step of the run before the frame; `hbefore` and `hsession` say that
the frame is the one that made the session. The induction is on the events, with `AuthInv` as
invariant. -/
theorem session_of_live_bot (cr : BotCrypto) (evs : List AuthEvent) (io : AuthIo)
    (data : List Nat) {r r' : AuthRun} {c c' : BotConn}
    (hok : Lww.AlongM Undisturbed (AuthRun.step cr) {} evs) (hrun : authRun cr evs = some r)
    (hconn : r.conn = some c) (hbefore : c.authenticated = false)
    (hstep : r.step cr (.frame io data) = some r') (hconn' : r'.conn = some c')
    (hsession : c'.typ = .bot ∧ c'.authenticated = true) : LiveSession cr r.hub c data := by
  have hstart : AuthInv {} := by
    refine ⟨⟨.nil, fun u hu => (List.not_mem_nil hu).elim⟩, fun c hc hwait => ?_⟩
    cases hc
    cases hwait.1
  have hr : AuthInv r :=
    Lww.inv_runM (Q := fun _ => True) (fun s ev t hs _ hev hst => hs.step hev hst) hstart
      (fun _ _ => trivial) hok hrun
  obtain ⟨s, conn⟩ := r
  cases hconn
  unfold AuthRun.step at hstep
  simp only [hbefore, Bool.false_eq_true, if_false] at hstep
  obtain ⟨p, hp, rfl⟩ := Option.map_eq_some_iff.mp hstep
  rcases (handleBotAuthentication_cases hr.registry hp).2 c' hconn'
    with ⟨-, -, huuid⟩ | ⟨hsent, key, hkey, rfl⟩
  · -- a uuid alone authenticates nobody
    have hauth := (authUuid_spec huuid).2.2.1
    rw [hsession.2, hbefore] at hauth
    cases hauth
  have hq : c.quarantine = false := by
    by_contra hq
    have hauth := hsession.2
    unfold BotConn.granted at hauth
    simp only [] at hauth
    rw [if_pos (by simpa using hq)] at hauth
    rw [hbefore] at hauth
    cases hauth
  obtain ⟨combined, hload, hverify⟩ := authSignature_spec hkey hq
  obtain ⟨⟨b, hfind, hact⟩, hrev⟩ := hr.live c rfl ⟨hsent, hq⟩
  have hu := List.find?_some hfind
  refine ⟨b, List.mem_of_find?_eq_some hfind, beq_iff_eq.mp hu, hact, hrev, combined, ?_, hverify⟩
  unfold loadBotCombinedPub at hload
  rw [hfind] at hload
  exact hload

/-! ### Two runs -/

namespace AuthRuns

/-- A bot. -/
def uuid : Str := "11111111-2222-3333-4444-555555555555".toList

/-- Its key. -/
def pubKey : Str := List.replicate 86 'B' ++ "==".toList

/-- A signature is the key followed by the last 32 bytes of what it signs. -/
def crypto : BotCrypto where
  ed25519Verify := fun key msg sig => sig == key ++ msg.drop (msg.length - 32)
  x25519Derive := fun a b => some (a.zipWith (fun x y => (x + y) % 256) b)
  hkdfSha256 := fun ikm _ _ => some ikm
  aesGcmEncrypt := fun _ _ => true
  aesGcmDecrypt := fun frame _ => some frame

def io : AuthIo where
  clk := { now := 100 }
  challenge := some (List.replicate 32 7)
  ephemeral := some (List.replicate 32 5, List.replicate 32 6)
  written := true

/-- The bot is registered and sends its uuid. -/
def uuidSent : List AuthEvent :=
  [.store { now := 10 } (.create "bot".toList uuid pubKey), .frame io (strBytes uuid)]

/-- It gets another nick. -/
def renamed : List AuthEvent :=
  uuidSent ++ [.store { now := 50 } (.update uuid BotKey.n.name "other".toList [] [] 50)]

/-- It is deleted. -/
def deleted : List AuthEvent :=
  uuidSent ++ [.store { now := 50 } (.update uuid BotKey.d.name ['1'] [] [] 50)]

/-- Its answer to the challenge. -/
def answer : List Nat := ((combinedPub pubKey).getD []).take 32 ++ List.replicate 32 7

end AuthRuns

/-- A bot that gets another nick in between still logs in. -/
theorem session_of_renamed_bot :
    ∃ r c, authRun AuthRuns.crypto AuthRuns.renamed = some r ∧ r.conn = some c ∧
      LiveSession AuthRuns.crypto r.hub c AuthRuns.answer := by
  refine ⟨_, _, rfl, rfl, session_of_live_bot AuthRuns.crypto AuthRuns.renamed AuthRuns.io
    AuthRuns.answer ?_ rfl rfl rfl rfl rfl ⟨rfl, rfl⟩⟩
  refine ⟨?_, ?_, ?_, trivial⟩
  · intro c hc hwait
    cases hc
    cases hwait.1
  · intro c _ _
    exact .inl (by decide)
  · intro c hc _ _ s hs
    cases hc
    cases hs
    exact ⟨⟨_, rfl, rfl⟩, rfl⟩

/-- A bot that is deleted after its uuid was let through still gets a session. -/
theorem session_of_deleted_bot :
    ∃ r r' c c', authRun AuthRuns.crypto AuthRuns.deleted = some r ∧ r.conn = some c ∧
      c.authenticated = false ∧
      r.step AuthRuns.crypto (.frame AuthRuns.io AuthRuns.answer) = some r' ∧ r'.conn = some c' ∧
      (c'.typ = .bot ∧ c'.authenticated = true) ∧
      ¬ LiveSession AuthRuns.crypto r.hub c AuthRuns.answer := by
  refine ⟨_, _, _, _, rfl, rfl, rfl, rfl, rfl, ⟨rfl, rfl⟩, ?_⟩
  rintro ⟨b, hb, -, hact, -⟩
  rw [List.mem_singleton.mp hb] at hact
  cases hact

end IrcHub.Proofs
