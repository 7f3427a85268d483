import Mathlib.Data.List.Induction
import Mathlib.Data.List.Nodup
import IrcHub.Hub.RateLimit

/-!
# `IrcHub.Proofs.RateLimit`: the count of open connections of an address

`accounted_iff`: from an empty hub, the entry of every address counts its inbound connections, the
cap holds and it refuses no address under it, in every state of a run, exactly when every step of
the run meets `StepOk`. A step fails it in two ways:

* It closes a connection this hub dialled while the other end's address has inbound connections
  too: `disconnectClient` takes one off their count.
* It opens an inbound connection that no cap was asked for, a console or one over a trusted
  loopback, on an address that is at its cap.

`Balanced` is the part about the counts, and `connStep_spec` says of every step what it does to
them, for whichever connection it opens or closes. `connStep_accounted_iff` is the equivalence for
one step, and the one for runs follows by induction on the prefixes.

The addresses of the events are texts of IP addresses, so they fit an entry, and the table is
never full of open or blocked entries (`HasRoom`).
-/

set_option autoImplicit false

namespace IrcHub.Proofs

open IrcHub.Hub
open String (utf8Len)

/-! ### What is to hold -/

/-- Inbound connections from an address. -/
def inboundFrom (clients : List HubClient) (ip : Str) : Nat :=
  clients.countP fun c => c.inbound && decide (c.ip = ip)

/-- The table counts what `n` says of every address, and an address it has no entry for has
nothing. The counts are a parameter, because in the middle of a step they are those before it or
after it. -/
structure Balanced (limits : List IpRateLimit) (n : Str → Nat) : Prop where
  entry : ∀ e ∈ limits, e.activeConnections = n e.ip
  tracked : ∀ ip, ip ∉ limits.map (·.ip) → n ip = 0

/-- The entries count the inbound connections, no address is over the cap, and the cap refuses
none that is under it. -/
structure Accounted (s : ConnState) : Prop where
  balanced : Balanced s.ipLimits (inboundFrom s.clients)
  capped : ∀ ip, inboundFrom s.clients ip ≤ s.connCfg .perip
  fair : ∀ ip now, inboundFrom s.clients ip < s.connCfg .perip → (isIpAllowed s ip now).2 ≠ .perip

/-- The connection a step closes, if it closes one. -/
def closes (s : ConnState) : ConnEvent → Option HubClient
  | .disconnect ci => s.clients[ci]?
  | .dialled ci up => s.clients[ci]?.filter fun c => c.dialing && !up
  | .sniffed ci ssh _ _ _ => s.clients[ci]?.filter fun c => c.sniffPending && ssh
  | _ => none

/-- The address a step opens an inbound connection of without asking the cap. -/
def opensUnasked (s : ConnState) : ConnEvent → Option Str
  | .console ip _ creds =>
      if creds && decide (s.clients.length < maxClients) then some ip else none
  | .accept ip _ acl _ _ =>
    if acl && trustedLoopback s ip && decide (s.clients.length < maxClients)
      then some ip else none
  | _ => none

/-- A dialled connection is closed only while its address has no inbound one, and what opens
without the cap's question is under it. -/
structure StepOk (s : ConnState) (e : ConnEvent) : Prop where
  closed : ∀ c, closes s e = some c → c.inbound = false → inboundFrom s.clients c.ip = 0
  opened : ∀ ip, opensUnasked s e = some ip → inboundFrom s.clients ip < s.connCfg .perip

/-- The address a step looks up in the rate-limit table, and when. -/
def asks : ConnEvent → Option (Str × Int)
  | .accept ip now _ _ _ | .console ip now _ | .failedAuth ip now => some (ip, now)
  | _ => none

/-- The address of the event is the text of an IP address, and the table has a slot for it. -/
def HasRoom (s : ConnState) (e : ConnEvent) : Prop :=
  ∀ ip now, asks e = some (ip, now) → utf8Len ip < 64 ∧ ipLimitSlot s.ipLimits ip now ≠ none

/-! ### One entry -/

/-- The table balances the counts after one entry changed, if its count is the new one. No other
address has the entry, since the addresses are apart (`huniq`). -/
theorem Balanced.rewrite {limits : List IpRateLimit} {n n' : Str → Nat} (h : Balanced limits n)
    (huniq : (limits.map (·.ip)).Nodup) {i : Nat} {e e' : IpRateLimit} (hi : limits[i]? = some e)
    (hip : e'.ip = e.ip) (hact : e'.activeConnections = n' e.ip)
    (hn : ∀ ip, ip ≠ e.ip → n' ip = n ip) :
    Balanced (limits.set i e') n' := by
  have hips : (limits.set i e').map (·.ip) = limits.map (·.ip) := by
    rw [List.map_set, hip]
    exact Table.set_of_getElem? (by rw [List.getElem?_map, hi]; rfl)
  refine ⟨fun k hk => ?_, fun ip hmem => ?_⟩
  · obtain ⟨j, hj⟩ := List.getElem?_of_mem hk
    rw [List.getElem?_set] at hj
    split at hj
    · -- the rewritten entry
      split at hj
      · cases hj
        rw [hip]
        exact hact
      · cases hj
    · -- another one, of another address
      rename_i hne
      have hother : k.ip ≠ e.ip := by
        intro heq
        have hi' : (limits.map (·.ip))[i]? = some e.ip := by rw [List.getElem?_map, hi]; rfl
        have hj' : (limits.map (·.ip))[j]? = some e.ip := by
          rw [List.getElem?_map, hj, ← heq]
          rfl
        have hlt : i < (limits.map (·.ip)).length := (List.getElem?_eq_some_iff.mp hi').1
        exact hne ((List.getElem?_inj hlt huniq).mp (hi'.trans hj'.symm))
      rw [hn _ hother]
      exact h.entry k (List.mem_of_getElem? hj)
  · rw [hips] at hmem
    have hne : ip ≠ e.ip := by
      intro heq
      exact hmem (heq ▸ List.mem_map_of_mem (List.mem_of_getElem? hi))
    rw [hn ip hne]
    exact h.tracked ip hmem

/-- A rewrite that leaves the address and the count alone. -/
theorem Balanced.same {limits : List IpRateLimit} {n : Str → Nat} (h : Balanced limits n)
    (huniq : (limits.map (·.ip)).Nodup) {i : Nat} {e e' : IpRateLimit} (hi : limits[i]? = some e)
    (hip : e'.ip = e.ip) (hact : e'.activeConnections = e.activeConnections) :
    Balanced (limits.set i e') n :=
  h.rewrite huniq hi hip (hact.trans (h.entry e (List.mem_of_getElem? hi))) fun _ _ => rfl

/-- An entry that keeps its address leaves the addresses. -/
theorem ips_set {limits : List IpRateLimit} {i : Nat} {e e' : IpRateLimit}
    (hi : limits[i]? = some e) (hip : e'.ip = e.ip) :
    (limits.set i e').map (·.ip) = limits.map (·.ip) := by
  rw [List.map_set, hip]
  exact Table.set_of_getElem? (by rw [List.getElem?_map, hi]; rfl)

/-- A change of a row is an overwrite by the changed row. -/
theorem modify_of_getElem? {α : Type} {l : List α} {i : Nat} {a : α} (f : α → α)
    (hi : l[i]? = some a) :
    l.modify i f = l.set i (f a) := by
  rw [List.modify_eq_set_getElem?, hi]
  rfl

/-! ### The slot of an address -/

/-- The slot found holds a row that is not skipped. -/
theorem oldestSlot_spec {α : Type} {skip : α → Bool} {key : α → Int} {rows : List α}
    {i : Nat} {k : Int} (h : oldestSlot skip key rows = some (i, k)) : ∃ a, rows[i]? = some a
    ∧ skip a = false := by
  have hinv : ∀ p, oldestSlot skip key rows = some p → ∃ a, rows[p.1]? = some a
    ∧ skip a = false := by
    unfold oldestSlot
    refine List.foldlRecOn (motive := fun slot : Option (Nat × Int) =>
      ∀ p, slot = some p → ∃ a, rows[p.1]? = some a ∧ skip a = false) _ _ ?_ ?_
    · intro p hp
      cases hp
    · intro slot ih q hq p hp
      have hrow : rows[q.2]? = some q.1 := List.mem_zipIdx_iff_getElem?.mp hq
      split at hp
      · exact ih p hp
      · rename_i hskip
        have hskip' : skip q.1 = false := by simpa using hskip
        split at hp
        · cases hp
          exact ⟨q.1, hrow, hskip'⟩
        · rename_i j oldest
          split at hp
          · cases hp
            exact ⟨q.1, hrow, hskip'⟩
          · cases hp
            exact ih _ rfl
  exact hinv _ h

/-- The slot of an address is its own entry, or one that is new to it: past the end, or the place
of an entry without connections. -/
inductive FreeSlot (limits : List IpRateLimit) (ip : Str) : Nat × Bool → Prop
  | own {i : Nat} {e : IpRateLimit} (hi : limits[i]? = some e) (hip : e.ip = ip) :
      FreeSlot limits ip (i, false)
  | free (hnew : ip ∉ limits.map (·.ip)) : FreeSlot limits ip (limits.length, true)
  | idle {i : Nat} {e : IpRateLimit} (hnew : ip ∉ limits.map (·.ip)) (hi : limits[i]? = some e)
      (hidle : e.activeConnections ≤ 0) : FreeSlot limits ip (i, true)

/-- The slot an address is given: its own, a new one, or one that no open connection and no block
holds. So nobody's count is lost. -/
theorem ipLimitSlot_spec {limits : List IpRateLimit} {ip : Str} {now : Int} {slot : Nat × Bool}
    (h : ipLimitSlot limits ip now = some slot) : FreeSlot limits ip slot := by
  unfold ipLimitSlot at h
  split at h
  · rename_i i hfind
    cases h
    obtain ⟨hlt, hp, -⟩ := List.findIdx?_eq_some_iff_getElem.mp hfind
    exact .own (List.getElem?_eq_getElem hlt) (of_decide_eq_true hp)
  · rename_i hfind
    have hnew : ip ∉ limits.map (·.ip) := by
      intro hmem
      obtain ⟨e, he, hip⟩ := List.mem_map.mp hmem
      have := List.findIdx?_eq_none_iff.mp hfind e he
      exact of_decide_eq_false this hip
    split at h
    · cases h
      exact .free hnew
    · rw [Option.map_eq_some_iff] at h
      obtain ⟨p, hp, rfl⟩ := h
      obtain ⟨e, he, hheld⟩ := oldestSlot_spec (i := p.1) (k := p.2) hp
      unfold IpRateLimit.held at hheld
      rw [Bool.or_eq_false_iff] at hheld
      exact .idle hnew he (Int.not_lt.mp (of_decide_eq_false hheld.1))

/-- The entry of an address is found or made, and the table counts what it counted. -/
theorem findOrCreate_spec {limits : List IpRateLimit} {n : Str → Nat} {ip : Str} {now : Int}
    (h : Balanced limits n) (huniq : (limits.map (·.ip)).Nodup) (hlen : utf8Len ip < 64)
    (hroom : ipLimitSlot limits ip now ≠ none) :
    ∃ limits' i e, findOrCreate limits ip now = (limits', some i) ∧ limits'[i]? = some e
      ∧ e.ip = ip ∧
      Balanced limits' n ∧ (limits'.map (·.ip)).Nodup := by
  obtain ⟨slot, hslot⟩ := Option.ne_none_iff_exists'.mp hroom
  have hfresh : (IpRateLimit.fresh ip now).ip = ip := Str.trunc_of_lt hlen
  unfold findOrCreate
  rw [hslot]
  cases ipLimitSlot_spec hslot with
  -- it has an entry
  | own hi hip => exact ⟨limits, _, _, rfl, hi, hip, h, huniq⟩
  -- it has none, and there is room
  | free hnew =>
    refine ⟨limits ++ [.fresh ip now], limits.length, .fresh ip now, by simp,
      List.getElem?_concat_length, hfresh, ⟨?_, ?_⟩, ?_⟩
    · intro e he
      rcases List.mem_append.mp he with he | he
      · exact h.entry e he
      · cases List.mem_singleton.mp he
        rw [hfresh, h.tracked ip hnew]
        rfl
    · intro ip' hip'
      rw [List.map_append, List.mem_append, not_or] at hip'
      exact h.tracked ip' hip'.1
    · rw [List.map_append, List.map_singleton, hfresh]
      exact List.nodup_append.mpr ⟨huniq, List.nodup_singleton ip, fun a ha b hb => by
        cases List.mem_singleton.mp hb
        exact fun heq => hnew (heq ▸ ha)⟩
  -- it takes the entry of an idle address
  | idle hnew hi hidle =>
    rename_i i e
    have hlt : i < limits.length := (List.getElem?_eq_some_iff.mp hi).1
    -- the address that loses its entry had no connection
    have hnone : n e.ip = 0 := by
      have := h.entry e (List.mem_of_getElem? hi)
      omega
    refine ⟨limits.set i (.fresh ip now), i, .fresh ip now, by simp [Nat.ne_of_lt hlt],
      List.getElem?_set_self hlt, hfresh, ⟨?_, ?_⟩, ?_⟩
    · intro k hk
      rcases List.mem_or_eq_of_mem_set hk with hk | rfl
      · exact h.entry k hk
      · rw [hfresh, h.tracked ip hnew]
        rfl
    · intro ip' hip'
      rw [List.map_set, hfresh] at hip'
      by_cases hmem : ip' ∈ limits.map (·.ip)
      · -- only the address that lost its entry is missing
        obtain ⟨j, hj⟩ := List.getElem?_of_mem hmem
        by_cases hji : i = j
        · rw [← hji, List.getElem?_map, hi] at hj
          cases hj
          exact hnone
        · exact absurd (List.mem_of_getElem? (i := j) (by rw [List.getElem?_set_ne hji, hj])) hip'
      · exact h.tracked ip' hmem
    · rw [List.map_set, hfresh]
      exact huniq.set fun hmem => hnew hmem

/-- What a table counts is determined. -/
theorem Balanced.unique {limits : List IpRateLimit} {n n' : Str → Nat} (h : Balanced limits n)
    (h' : Balanced limits n') : n = n' := by
  funext ip
  by_cases hmem : ip ∈ limits.map (·.ip)
  · obtain ⟨e, he, rfl⟩ := List.mem_map.mp hmem
    have := h.entry e he
    have := h'.entry e he
    omega
  · rw [h.tracked ip hmem, h'.tracked ip hmem]

/-- `n` with one more, or one less, at an address. -/
def bump (n : Str → Nat) (ip : Str) (k : Nat) : Str → Nat :=
  fun ip' => if ip' = ip then k else n ip'

/-- A connection that opens is counted. The address needs a slot: in a table full of held ones the
count would be lost (`hroom`). -/
theorem increment_spec {limits : List IpRateLimit} {n : Str → Nat} {ip : Str} {now : Int}
    (h : Balanced limits n) (huniq : (limits.map (·.ip)).Nodup) (hlen : utf8Len ip < 64)
    (hroom : ipLimitSlot limits ip now ≠ none) :
    Balanced (incrementActiveConnections limits ip now) (bump n ip (n ip + 1)) ∧
      ((incrementActiveConnections limits ip now).map (·.ip)).Nodup := by
  obtain ⟨limits', i, e, hfind, hi, hip, hbal, huniq'⟩ := findOrCreate_spec h huniq hlen hroom
  unfold incrementActiveConnections
  rw [hfind]
  simp only [modify_of_getElem? _ hi]
  have hips : (limits'.set i { e with activeConnections := e.activeConnections + 1 }).map (·.ip)
      = limits'.map (·.ip) := ips_set hi rfl
  refine ⟨hbal.rewrite huniq' hi rfl ?_ ?_, hips ▸ huniq'⟩
  · have := hbal.entry e (List.mem_of_getElem? hi)
    show e.activeConnections + 1 = ((bump n ip (n ip + 1) e.ip : Nat) : Int)
    rw [bump, if_pos hip, this, hip]
    rfl
  · intro ip' hne
    rw [bump, if_neg (hip ▸ hne)]

/-- A connection that closes is counted, whether its address still has an entry or not. -/
theorem decrement_spec {limits : List IpRateLimit} {n : Str → Nat} (ip : Str)
    (h : Balanced limits n) (huniq : (limits.map (·.ip)).Nodup) :
    Balanced (decrementActiveConnections limits ip) (bump n ip (n ip - 1)) ∧
      ((decrementActiveConnections limits ip).map (·.ip)).Nodup := by
  unfold decrementActiveConnections
  split
  · rename_i i hfind
    obtain ⟨hlt, hp, -⟩ := List.findIdx?_eq_some_iff_getElem.mp hfind
    have hi : limits[i]? = some limits[i] := List.getElem?_eq_getElem hlt
    have hip : limits[i].ip = ip := of_decide_eq_true hp
    have hact := h.entry _ (List.mem_of_getElem? hi)
    rw [hip] at hact
    rw [modify_of_getElem? _ hi]
    have hsame : (if 0 < limits[i].activeConnections
        then { limits[i] with activeConnections := limits[i].activeConnections - 1 }
        else limits[i]).ip = limits[i].ip := by
      split <;> rfl
    refine ⟨h.rewrite huniq hi hsame ?_ ?_, by rwa [ips_set hi hsame]⟩
    · rw [hip, bump, if_pos rfl]
      split
      · show limits[i].activeConnections - 1 = _
        omega
      · omega
    · intro ip' hne
      rw [bump, if_neg (hip ▸ hne)]
  · rename_i hfind
    refine ⟨?_, huniq⟩
    have hnew : ip ∉ limits.map (·.ip) := by
      intro hmem
      obtain ⟨e, he, hip⟩ := List.mem_map.mp hmem
      exact of_decide_eq_false (List.findIdx?_eq_none_iff.mp hfind e he) hip
    -- an address without an entry has no connection to take off
    have heq : bump n ip (n ip - 1) = n := by
      funext ip'
      unfold bump
      split
      · rename_i hip
        rw [hip, h.tracked ip hnew]
      · rfl
    rw [heq]
    exact h

/-- Entries that are cleaned up count nothing. -/
theorem cleanup_spec {limits : List IpRateLimit} {n : Str → Nat} (now : Int)
    (h : Balanced limits n) :
    Balanced (cleanupOldIpLimits limits now) n := by
  refine ⟨fun e he => h.entry e (List.mem_of_mem_filter he), fun ip hmem => ?_⟩
  by_cases hold : ip ∈ limits.map (·.ip)
  · obtain ⟨e, he, rfl⟩ := List.mem_map.mp hold
    -- the entry was dropped, so it was idle
    have hdropped : e ∉ cleanupOldIpLimits limits now := fun hin => hmem (List.mem_map_of_mem hin)
    rw [cleanupOldIpLimits, List.mem_filter, not_and] at hdropped
    have hgone := hdropped he
    rw [Bool.not_eq_true, Bool.not_eq_false', Bool.and_eq_true, Bool.and_eq_true] at hgone
    have := h.entry e he
    have := of_decide_eq_true hgone.1.1
    omega
  · exact h.tracked ip hold

/-! ### The gate -/

/-- A block that has ended changes no count. -/
theorem unblocked_same (e : IpRateLimit) :
    e.unblocked.ip = e.ip ∧ e.unblocked.activeConnections = e.activeConnections := by
  unfold IpRateLimit.unblocked
  split <;> exact ⟨rfl, rfl⟩

/-- Nor does an attempt that is counted in the window. -/
theorem counted_same (cfg : ConnCfg) (now : Int) (e : IpRateLimit) :
    (e.counted cfg now).ip = e.ip
    ∧ (e.counted cfg now).activeConnections = e.activeConnections := by
  unfold IpRateLimit.counted
  split <;> exact ⟨rfl, rfl⟩

/-- The cap refuses when as many are open as there may be. -/
theorem peripVerdict_eq_perip {cfg : ConnCfg} {e : IpRateLimit} :
    peripVerdict cfg e = .perip ↔ cfg .perip ≤ e.activeConnections := by
  unfold peripVerdict
  split <;> simp_all

/-- And admits when fewer are. -/
theorem peripVerdict_eq_allowed {cfg : ConnCfg} {e : IpRateLimit} :
    peripVerdict cfg e = .allowed ↔ e.activeConnections < cfg .perip := by
  unfold peripVerdict
  split <;> simp_all

/-- An attempt changes no count of open connections. It is refused for the cap only where the cap
is reached. -/
theorem attempt_spec (cfg : ConnCfg) (recent : Bool) (now : Int) (e : IpRateLimit) :
    (attempt cfg recent now e).1.ip = e.ip ∧
      (attempt cfg recent now e).1.activeConnections = e.activeConnections ∧
      ((attempt cfg recent now e).2 = .perip → cfg .perip ≤ e.activeConnections) ∧
      ((attempt cfg recent now e).2 = .allowed → e.activeConnections < cfg .perip) := by
  obtain ⟨hip, hact⟩ := unblocked_same e
  obtain ⟨hip', hact'⟩ := counted_same cfg now e.unblocked
  unfold attempt
  split
  · exact ⟨rfl, rfl, fun hv => (by cases hv), fun hv => by cases hv⟩
  · split
    · refine ⟨hip, hact, fun hv => ?_, fun hv => ?_⟩
      · rw [← hact]
        exact peripVerdict_eq_perip.mp hv
      · rw [← hact]
        exact peripVerdict_eq_allowed.mp hv
    · split
      · exact ⟨hip'.trans hip, hact'.trans hact, fun hv => (by cases hv), fun hv => by cases hv⟩
      · refine ⟨hip'.trans hip, hact'.trans hact, fun hv => ?_, fun hv => ?_⟩
        · rw [← hact, ← hact']
          exact peripVerdict_eq_perip.mp hv
        · rw [← hact, ← hact']
          exact peripVerdict_eq_allowed.mp hv

/-- The counters of a hub, and one entry for each address. -/
structure Booked (s : ConnState) : Prop where
  balanced : Balanced s.ipLimits (inboundFrom s.clients)
  uniq : (s.ipLimits.map (·.ip)).Nodup

/-- The cap refuses no address that is under it: the entry that is asked counts no more than there
are connections. -/
theorem Balanced.fair {s : ConnState} (h : Balanced s.ipLimits (inboundFrom s.clients)) (ip : Str)
    (now : Int) (hunder : inboundFrom s.clients ip < s.connCfg .perip) :
    (isIpAllowed s ip now).2 ≠ .perip := by
  unfold isIpAllowed
  split
  · exact fun hv => by cases hv
  · unfold findOrCreate
    cases hslot : ipLimitSlot s.ipLimits ip now with
    | none => exact fun hv => by cases hv
    | some slot =>
      have hfresh : (IpRateLimit.fresh ip now).activeConnections = 0 := rfl
      cases ipLimitSlot_spec hslot with
      | own hi hip =>
        simp only [hi]
        intro hv
        have := (attempt_spec _ _ _ _).2.2.1 hv
        have := h.entry _ (List.mem_of_getElem? hi)
        rw [hip] at this
        omega
      | free hnew =>
        simp only [if_true, List.getElem?_concat_length]
        intro hv
        have := (attempt_spec _ _ _ _).2.2.1 hv
        omega
      | idle hnew hi hidle =>
        have hlt := (List.getElem?_eq_some_iff.mp hi).1
        simp only [Nat.ne_of_lt hlt, if_false, List.getElem?_set_self hlt]
        intro hv
        have := (attempt_spec _ _ _ _).2.2.1 hv
        omega

/-- The gate leaves the connections and what is counted alone, and lets no address in that is at
its cap, unless it is exempt. -/
theorem isIpAllowed_spec {s : ConnState} (h : Booked s) {ip : Str} {now : Int}
    (hlen : utf8Len ip < 64) (hroom : ipLimitSlot s.ipLimits ip now ≠ none) :
    Booked (isIpAllowed s ip now).1 ∧ (isIpAllowed s ip now).1.clients = s.clients ∧
      (isIpAllowed s ip now).1.connCfg = s.connCfg ∧
      ipLimitSlot (isIpAllowed s ip now).1.ipLimits ip now ≠ none ∧
      ((isIpAllowed s ip now).2 = .allowed →
        trustedLoopback s ip = true ∨ inboundFrom s.clients ip < s.connCfg .perip) := by
  unfold isIpAllowed
  split
  · rename_i htrust
    exact ⟨h, rfl, rfl, hroom, fun _ => .inl htrust⟩
  · obtain ⟨limits, i, e, hfind, hi, hip, hbal, huniq⟩ :=
      findOrCreate_spec h.balanced h.uniq hlen hroom
    obtain ⟨hsame, hact, -, hallowed⟩ :=
      attempt_spec s.connCfg (sshTableRecentOk s.sshIps ip now) now e
    simp only [hfind, hi]
    refine ⟨⟨hbal.same huniq hi hsame hact, (ips_set hi hsame).symm ▸ huniq⟩, trivial,
      trivial, ?_, fun hv => .inr ?_⟩
    · -- the entry just used is there
      intro hnone
      have hmem : ip ∈ limits.map (·.ip) := hip ▸ List.mem_map_of_mem (List.mem_of_getElem? hi)
      rw [← ips_set hi hsame] at hmem
      obtain ⟨k, hk, hkip⟩ := List.mem_map.mp hmem
      unfold ipLimitSlot at hnone
      split at hnone
      · cases hnone
      · rename_i hfind'
        exact of_decide_eq_false (List.findIdx?_eq_none_iff.mp hfind' k hk) hkip
    · have := hallowed hv
      have := hbal.entry e (List.mem_of_getElem? hi)
      rw [hip] at this
      omega

/-! ### The connections -/

/-- An inbound connection more. -/
theorem inboundFrom_append (clients : List HubClient) (c : HubClient) (hin : c.inbound = true) :
    inboundFrom (clients ++ [c]) = bump (inboundFrom clients) c.ip
      (inboundFrom clients c.ip + 1) := by
  funext ip
  unfold inboundFrom bump
  rw [List.countP_append, List.countP_singleton, hin]
  by_cases hip : ip = c.ip
  · simp [hip]
  · simp [hip, Ne.symm hip]

/-- One that this hub dialled is not counted. -/
theorem inboundFrom_append_outbound (clients : List HubClient) (c : HubClient)
    (hout : c.inbound = false) :
    inboundFrom (clients ++ [c]) = inboundFrom clients := by
  funext ip
  unfold inboundFrom
  rw [List.countP_append, List.countP_singleton, hout]
  simp

/-- A connection that stays inbound from its address. -/
theorem inboundFrom_set {clients : List HubClient} {ci : Nat} {c c' : HubClient}
    (hc : clients[ci]? = some c) (hin : c'.inbound = c.inbound) (hip : c'.ip = c.ip) :
    inboundFrom (clients.set ci c') = inboundFrom clients := by
  funext ip
  exact Table.countP_set_of_eq hc (by rw [hin, hip])

/-- A connection less. -/
theorem inboundFrom_swapRemove {clients : List HubClient} {ci : Nat} {c : HubClient}
    (hc : clients[ci]? = some c) (ip : Str) :
    inboundFrom (Table.swapRemove clients ci) ip
      + (if c.inbound && decide (c.ip = ip) then 1 else 0) = inboundFrom clients ip := by
  obtain ⟨hlt, rfl⟩ := List.getElem?_eq_some_iff.mp hc
  have hperm := (Table.swapRemove_perm clients hlt).countP_eq
    fun c => c.inbound && decide (c.ip = ip)
  have hsplit : clients = clients.take ci ++ clients[ci] :: clients.drop (ci + 1) := by simp
  unfold inboundFrom
  rw [hperm, List.eraseIdx_eq_take_drop_succ]
  conv_rhs => rw [hsplit]
  rw [List.countP_append, List.countP_append, List.countP_cons]
  omega

/-- A connection closed: the table counts it off its address, whichever way it was opened. -/
theorem disconnect_spec {s : ConnState} (h : Booked s) {ci : Nat} {c : HubClient}
    (hc : s.clients[ci]? = some c) :
    Balanced (disconnectClient s ci).ipLimits
        (bump (inboundFrom s.clients) c.ip (inboundFrom s.clients c.ip - 1)) ∧
      ((disconnectClient s ci).ipLimits.map (·.ip)).Nodup ∧
      (disconnectClient s ci).connCfg = s.connCfg ∧
      (∀ ip, inboundFrom (disconnectClient s ci).clients ip
        + (if c.inbound && decide (c.ip = ip) then 1 else 0) = inboundFrom s.clients ip) := by
  unfold disconnectClient
  rw [hc]
  obtain ⟨hbal, huniq⟩ := decrement_spec c.ip h.balanced h.uniq
  exact ⟨hbal, huniq, rfl, inboundFrom_swapRemove hc⟩

/-- A connection closed is counted right exactly when it was inbound or its address has none. -/
theorem disconnect_balanced_iff {s : ConnState} (h : Booked s) {ci : Nat} {c : HubClient}
    (hc : s.clients[ci]? = some c) :
    Balanced (disconnectClient s ci).ipLimits (inboundFrom (disconnectClient s ci).clients) ↔
      (c.inbound = false → inboundFrom s.clients c.ip = 0) := by
  obtain ⟨hbal, -, -, hcount⟩ := disconnect_spec h hc
  constructor
  · intro hbal' hout
    have hsame := congrFun (hbal.unique hbal') c.ip
    have := hcount c.ip
    rw [hout] at this
    simp only [Bool.false_and, Bool.false_eq_true, if_false] at this
    unfold bump at hsame
    rw [if_pos rfl] at hsame
    omega
  · intro hok
    have hsame : bump (inboundFrom s.clients) c.ip (inboundFrom s.clients c.ip - 1)
        = inboundFrom (disconnectClient s ci).clients := by
      funext ip
      have := hcount ip
      unfold bump
      cases hin : c.inbound with
      | true =>
        rw [hin, Bool.true_and] at this
        split
        · rename_i hip
          subst hip
          rw [decide_eq_true rfl, if_pos rfl] at this
          omega
        · rename_i hip
          rw [decide_eq_false (Ne.symm hip)] at this
          simp only [Bool.false_eq_true, if_false] at this
          omega
      | false =>
        rw [hin] at this
        simp only [Bool.false_and, Bool.false_eq_true, if_false] at this
        split
        · rename_i hip
          subst hip
          have := hok hin
          omega
        · omega
    exact hsame ▸ hbal

/-- A connection that comes in is counted. -/
theorem openInbound_spec {s : ConnState} (h : Booked s) {c : HubClient} {now : Int}
    (hin : c.inbound = true) (hlen : utf8Len c.ip < 64)
    (hroom : ipLimitSlot s.ipLimits c.ip now ≠ none) : Booked (openInbound s c now) := by
  obtain ⟨hbal, huniq⟩ := increment_spec h.balanced h.uniq hlen hroom
  exact ⟨(inboundFrom_append s.clients c hin).symm ▸ hbal, huniq⟩

/-! ### One step -/

/-- What the counters need of a step: the addresses stay apart, and the counts are right if and
only if no dialled connection was counted off. -/
structure Stepped (s s' : ConnState) (closed : Option HubClient)
    (opened : Option Str) : Prop where
  uniq : (s'.ipLimits.map (·.ip)).Nodup
  cfg : s'.connCfg = s.connCfg
  balanced : Balanced s'.ipLimits (inboundFrom s'.clients) ↔
    ∀ c, closed = some c → c.inbound = false → inboundFrom s.clients c.ip = 0
  count : ∀ ip, inboundFrom s'.clients ip ≤ inboundFrom s.clients ip
    + (if opened = some ip then 1 else 0)
  opens : ∀ ip, opened = some ip → inboundFrom s'.clients ip = inboundFrom s.clients ip + 1

/-- A step that opens and closes nothing. -/
theorem Stepped.of_same {s s' : ConnState} (h : Booked s') (hcfg : s'.connCfg = s.connCfg)
    (hcount : inboundFrom s'.clients = inboundFrom s.clients) : Stepped s s' none none where
  uniq := h.uniq
  cfg := hcfg
  balanced := ⟨fun _ c hc => (by cases hc), fun _ => h.balanced⟩
  count := fun ip => by rw [hcount]; omega
  opens := fun ip hip => by cases hip

/-- A step that opens one. -/
theorem Stepped.of_open {s s' : ConnState} {c : HubClient} (h : Booked s')
    (hcfg : s'.connCfg = s.connCfg) (hclients : s'.clients = s.clients ++ [c])
    (hin : c.inbound = true) :
    Stepped s s' none (some c.ip) where
  uniq := h.uniq
  cfg := hcfg
  balanced := ⟨fun _ c hc => (by cases hc), fun _ => h.balanced⟩
  count := fun ip => by
    rw [hclients, inboundFrom_append _ _ hin, bump]
    split
    · rename_i hip
      rw [hip, if_pos rfl]
    · omega
  opens := fun ip hip => by
    cases hip
    rw [hclients, inboundFrom_append _ _ hin, bump, if_pos rfl]

/-- A connection that closes; `c` is how it was before the step. -/
theorem Stepped.of_close {s s' : ConnState} (h : Booked s') (hcfg : s'.connCfg = s.connCfg)
    (hcount : inboundFrom s'.clients = inboundFrom s.clients) {ci : Nat} {c c' : HubClient}
    (hc : s'.clients[ci]? = some c') (hin : c'.inbound = c.inbound) (hip : c'.ip = c.ip) :
    Stepped s (disconnectClient s' ci) (some c) none where
  uniq := (disconnect_spec h hc).2.1
  cfg := (disconnect_spec h hc).2.2.1.trans hcfg
  balanced := by
    rw [disconnect_balanced_iff h hc, hcount, hin, hip]
    exact ⟨fun hok k hk => (by cases hk; exact hok), fun hok => hok c rfl⟩
  count := fun ip => by
    have := (disconnect_spec h hc).2.2.2 ip
    rw [← hcount]
    omega
  opens := fun ip hip => by cases hip

/-- What opens was under the cap when it was asked for, or was not asked for. -/
structure Opens (s : ConnState) (e : ConnEvent) (opened : Option Str) : Prop where
  under : ∀ ip, opened = some ip →
    inboundFrom s.clients ip < s.connCfg .perip ∨ opensUnasked s e = some ip
  unasked : ∀ ip, opensUnasked s e = some ip → opened = some ip

/-- A step that opens nothing opens it under the cap. -/
theorem Opens.nothing {s : ConnState} {e : ConnEvent} (h : opensUnasked s e = none) :
    Opens s e none where
  under := fun ip hip => by cases hip
  unasked := fun ip hip => h.symm.trans hip

/-- The accepted connection. It is refused, or counted, or let in over a trusted loopback. -/
theorem acceptOne_spec {s : ConnState} (h : Booked s) {ip : Str} {now : Int} {acl known : Bool}
    {random : Option Nat} (hlen : utf8Len ip < 64)
    (hroom : ipLimitSlot s.ipLimits ip now ≠ none) :
    ∃ opened, Stepped s (acceptOne s ip now acl known random) none opened ∧
      Opens s (.accept ip now acl known random) opened := by
  obtain ⟨hbook, hclients, hcfg, hslot, hallowed⟩ := isIpAllowed_spec h hlen hroom
  unfold acceptOne
  cases hacl : acl with
  -- the address list refuses it
  | false => exact ⟨none, .of_same h rfl rfl, .nothing rfl⟩
  | true =>
    simp only [Bool.not_true, Bool.false_eq_true, if_false]
    split
    · -- the startup gate lets a trusted loopback through
      rename_i hgate
      refine ⟨none, .of_same h rfl rfl, .nothing ?_⟩
      have htrust : trustedLoopback s ip = false := by
        cases ht : trustedLoopback s ip with
        | false => rfl
        | true => simp [startupAdmit, ht] at hgate
      simp [opensUnasked, htrust]
    · split
      -- the limits refuse it, which they never do to a trusted loopback
      · rename_i hverdict
        refine ⟨none, .of_same hbook hcfg (by rw [hclients]), .nothing ?_⟩
        have htrust : trustedLoopback s ip = false := by
          cases ht : trustedLoopback s ip with
          | false => rfl
          | true => exact absurd (by simp [isIpAllowed, ht]) hverdict
        simp [opensUnasked, htrust]
      · rename_i hverdict
        split
        -- the table of the clients is full
        · rename_i hfull
          refine ⟨none, .of_same hbook hcfg (by rw [hclients]), .nothing ?_⟩
          rw [hclients] at hfull
          simp [opensUnasked, Nat.not_lt.mpr hfull]
        -- it is let in, and booked for its address
        · rename_i hfull
          rw [hclients] at hfull
          have hopen := openInbound_spec hbook
            (c := { ip, inbound := true, sniffPending := true }) rfl hlen hslot
          have hnew : (openInbound (isIpAllowed s ip now).1
              { ip, inbound := true, sniffPending := true } now).clients
              = s.clients ++ [{ ip, inbound := true, sniffPending := true }] := by
            unfold openInbound
            rw [hclients]
          refine ⟨some ip, .of_open (c := { ip, inbound := true, sniffPending := true }) hopen
            hcfg hnew rfl, ?_, ?_⟩
          -- booked after the limits let it in, unless it is trusted
          · intro ip' hip
            cases hip
            rcases hallowed (not_ne_iff.mp hverdict) with htrust | hunder
            · exact .inr (by simp [opensUnasked, htrust, Nat.not_le.mp hfull])
            · exact .inl hunder
          · intro ip' hip
            simp only [opensUnasked] at hip
            split at hip
            · exact hip
            · cases hip

/-- The end of a dial: the connection stays, or is closed as one that was dialled. -/
theorem finishDial_spec {s : ConnState} (h : Booked s) (ci : Nat) (up : Bool) :
    Stepped s (finishDial s ci up) (closes s (.dialled ci up)) none := by
  have hclosed : closes s (.dialled ci up) = s.clients[ci]?.filter fun c => c.dialing && !up :=
    rfl
  rw [hclosed, finishDial]
  cases hc : s.clients[ci]? with
  | none => exact .of_same h rfl rfl
  | some c =>
    have hsame : inboundFrom (s.clients.set ci { c with dialing := false })
      = inboundFrom s.clients :=
      inboundFrom_set hc rfl rfl
    have hbook : Booked { s with clients := s.clients.set ci { c with dialing := false } } :=
      ⟨hsame.symm ▸ h.balanced, h.uniq⟩
    have hlt := (List.getElem?_eq_some_iff.mp hc).1
    cases hdial : c.dialing with
    | false =>
      simp only [Option.filter_some, hdial, Bool.false_and, Bool.not_false,
        Bool.false_eq_true, if_false, if_true]
      exact .of_same h rfl rfl
    | true =>
      simp only [Option.filter_some, hdial, Bool.true_and, Bool.not_true,
        Bool.false_eq_true, if_false]
      cases up with
      | true => exact .of_same hbook rfl hsame
      | false =>
        exact .of_close (s := s) hbook rfl hsame (c := c) (List.getElem?_set_self hlt) rfl rfl

/-- The first bytes of a connection, which say what it is for. -/
theorem sniff_spec {s : ConnState} (h : Booked s) (ci : Nat) (ssh console acl : Bool)
    (now : Int) :
    Stepped s (sniff s ci ssh console acl now)
      (closes s (.sniffed ci ssh console acl now)) none := by
  have hclosed : closes s (.sniffed ci ssh console acl now) =
      s.clients[ci]?.filter fun c => c.sniffPending && ssh := rfl
  rw [hclosed, sniff]
  cases hc : s.clients[ci]? with
  -- no such connection
  | none => exact .of_same h rfl rfl
  | some c =>
    have hsame : inboundFrom (s.clients.set ci { c with sniffPending := false })
        = inboundFrom s.clients := inboundFrom_set hc rfl rfl
    have hlt := (List.getElem?_eq_some_iff.mp hc).1
    cases hpend : c.sniffPending with
    -- it said what it is for before
    | false =>
      simp only [Option.filter_some, hpend, Bool.false_and, Bool.not_false,
        Bool.false_eq_true, if_false, if_true]
      exact .of_same h rfl rfl
    | true =>
      simp only [Option.filter_some, hpend, Bool.true_and, Bool.not_true,
        Bool.false_eq_true, if_false]
      cases ssh with
      -- no SSH: it stays
      | false => exact .of_same ⟨hsame.symm ▸ h.balanced, h.uniq⟩ rfl hsame
      | true =>
        simp only [Bool.not_true, Bool.false_eq_true, if_false, if_true]
        -- the SSH gate only writes its own table
        have hgate : ∀ s' : ConnState, (sshAdmit s' c.ip now acl).1.clients = s'.clients ∧
            (sshAdmit s' c.ip now acl).1.ipLimits = s'.ipLimits ∧
            (sshAdmit s' c.ip now acl).1.connCfg = s'.connCfg := by
          intro s'
          unfold sshAdmit
          split
          · exact ⟨rfl, rfl, rfl⟩
          · split <;> exact ⟨rfl, rfl, rfl⟩
        cases console with
        -- SSH without a console is turned away
        | false =>
          have hbook : Booked
            { s with clients := s.clients.set ci { c with sniffPending := false } } :=
            ⟨hsame.symm ▸ h.balanced, h.uniq⟩
          exact .of_close (s := s) hbook rfl hsame (c := c) (List.getElem?_set_self hlt) rfl rfl
        -- and so is one behind the gate, after the gate counted it
        | true =>
          let s' : ConnState :=
            { s with clients := s.clients.set ci { c with sniffPending := false } }
          obtain ⟨hclients, hlimits, hcfg⟩ := hgate s'
          have hbook : Booked (sshAdmit s' c.ip now acl).1 := by
            refine ⟨?_, ?_⟩
            · rw [hclients, hlimits, hsame]
              exact h.balanced
            · rw [hlimits]
              exact h.uniq
          have hget : (sshAdmit s' c.ip now acl).1.clients[ci]? = some
            { c with sniffPending := false } := by
            rw [hclients]
            exact List.getElem?_set_self hlt
          exact .of_close (s := s) hbook hcfg (hclients ▸ hsame) (c := c) hget rfl rfl

/-- A refused login changes no count of open connections. -/
theorem failedAuthRow_same (cfg : ConnCfg) (now : Int) (e : IpRateLimit) :
    (failedAuthRow cfg now e).ip = e.ip ∧
      (failedAuthRow cfg now e).activeConnections = e.activeConnections := by
  simp only [failedAuthRow]
  split <;> split <;> exact ⟨rfl, rfl⟩

/-- One step of the connections. The cases are the events. -/
theorem connStep_spec {s : ConnState} (h : Booked s) {e : ConnEvent} (hroom : HasRoom s e) :
    ∃ opened, Stepped s (connStep s e) (closes s e) opened ∧ Opens s e opened := by
  cases e with
  -- a connection from outside, the only event that the limits are asked about
  | accept ip now acl known random =>
    obtain ⟨hlen, hslot⟩ := hroom ip now rfl
    exact acceptOne_spec h hlen hslot
  | dial ip =>
    -- a dial to a peer opens nothing inbound
    refine ⟨none, ?_, .nothing rfl⟩
    show Stepped s (checkPeer s ip) none none
    unfold checkPeer
    split
    · exact .of_same h rfl rfl
    · have hsame := inboundFrom_append_outbound s.clients { ip, dialing := true } rfl
      exact .of_same ⟨hsame.symm ▸ h.balanced, h.uniq⟩ rfl hsame
  | dialled ci up => exact ⟨none, finishDial_spec h ci up, .nothing rfl⟩
  | sniffed ci ssh console acl now =>
      exact ⟨none, sniff_spec h ci ssh console acl now, .nothing rfl⟩
  -- a console that logged in: it has a login of its own, so the limits are not asked
  | console ip now creds =>
    obtain ⟨hlen, hslot⟩ := hroom ip now rfl
    show ∃ opened, Stepped s (openConsole s ip now creds) none opened ∧ _
    unfold openConsole
    cases creds with
    | false => exact ⟨none, .of_same h rfl rfl, .nothing rfl⟩
    | true =>
      simp only [Bool.not_true, Bool.false_eq_true, if_false]
      split
      -- the table of the clients is full
      · rename_i hfull
        exact ⟨none, .of_same h rfl rfl, .nothing (by simp [opensUnasked, Nat.not_lt.mpr hfull])⟩
      -- the place is booked for the address of the console
      · rename_i hfull
        have hopens : Opens s (.console ip now true) (some ip) :=
          ⟨fun ip' hip => .inr (by cases hip; simp [opensUnasked, Nat.not_le.mp hfull]),
           fun ip' hip => by
            simp only [opensUnasked] at hip
            split at hip
            · exact hip
            · cases hip⟩
        let c : HubClient := { ip, inbound := true, authenticated := true, internal := true }
        have hbook := openInbound_spec h (c := c) rfl hlen hslot
        refine ⟨some ip, ?_, hopens⟩
        split
        · exact .of_open (c := c) hbook rfl rfl rfl
        · exact .of_open (c := c) ⟨hbook.balanced, hbook.uniq⟩ rfl rfl rfl
  -- a login changes nothing about the address
  | authenticated ci =>
    refine ⟨none, ?_, .nothing rfl⟩
    show Stepped s { s with clients := s.clients.modify ci fun c =>
                            { c with authenticated := true } }
      none none
    have hsame : inboundFrom (s.clients.modify ci fun c => { c with authenticated := true })
        = inboundFrom s.clients := by
      cases hc : s.clients[ci]? with
      | none => rw [List.modify_eq_set_getElem?, hc]; rfl
      | some c =>
        rw [modify_of_getElem? _ hc]
        exact inboundFrom_set hc rfl rfl
    exact .of_same ⟨hsame.symm ▸ h.balanced, h.uniq⟩ rfl hsame
  -- a failed login blocks or counts, and leaves the counts of the connections
  | failedAuth ip now =>
    obtain ⟨hlen, hslot⟩ := hroom ip now rfl
    refine ⟨none, ?_, .nothing rfl⟩
    show Stepped s (recordFailedAuth s ip now) none none
    unfold recordFailedAuth
    split
    · exact .of_same h rfl rfl
    · obtain ⟨limits, i, k, hfind, hi, hip, hbal, huniq⟩ :=
        findOrCreate_spec h.balanced h.uniq hlen hslot
      obtain ⟨hsame, hact⟩ := failedAuthRow_same s.connCfg now k
      simp only [hfind, modify_of_getElem? _ hi]
      exact .of_same ⟨hbal.same huniq hi hsame hact, (ips_set hi hsame).symm ▸ huniq⟩ rfl rfl
  | sshFailed ip now =>
    refine ⟨none, ?_, .nothing rfl⟩
    show Stepped s (Hub.sshFailed s ip now) none none
    unfold Hub.sshFailed
    split
    · exact .of_same h rfl rfl
    · exact .of_same ⟨h.balanced, h.uniq⟩ rfl rfl
  -- the place of a closed connection is given back
  | disconnect ci =>
    refine ⟨none, ?_, .nothing rfl⟩
    show Stepped s (disconnectClient s ci) s.clients[ci]? none
    cases hc : s.clients[ci]? with
    | none =>
      unfold disconnectClient
      rw [hc]
      exact .of_same h rfl rfl
    | some c => exact .of_close h rfl rfl hc rfl rfl
  -- the sweep drops rows that count nothing
  | cleanup now =>
    refine ⟨none, .of_same ⟨cleanup_spec now h.balanced, ?_⟩ rfl rfl, .nothing rfl⟩
    exact h.uniq.sublist (List.filter_sublist.map _)

/-! ### Runs -/

/-- Counts that are right balance. -/
theorem Accounted.booked {s : ConnState} (h : Accounted s)
    (huniq : (s.ipLimits.map (·.ip)).Nodup) :
    Booked s := ⟨h.balanced, huniq⟩

/-- A step keeps the accounts exactly when it meets the condition. -/
theorem connStep_accounted_iff {s : ConnState} (h : Accounted s)
    (huniq : (s.ipLimits.map (·.ip)).Nodup) {e : ConnEvent} (hroom : HasRoom s e) :
    Accounted (connStep s e) ↔ StepOk s e := by
  obtain ⟨opened, hstep, hopens⟩ := connStep_spec (h.booked huniq) hroom
  constructor
  · intro h'
    refine ⟨hstep.balanced.mp h'.balanced, fun ip hip => ?_⟩
    have := hstep.opens ip (hopens.unasked ip hip)
    have := h'.capped ip
    rw [hstep.cfg] at this
    omega
  · intro hok
    have hbal := hstep.balanced.mpr hok.closed
    refine ⟨hbal, fun ip => ?_, hbal.fair⟩
    have hcount := hstep.count ip
    have hcap := h.capped ip
    rw [hstep.cfg]
    by_cases hip : opened = some ip
    · have hunder : inboundFrom s.clients ip < s.connCfg .perip :=
        (hopens.under ip hip).elim id (hok.opened ip)
      rw [if_pos hip] at hcount
      omega
    · rw [if_neg hip] at hcount
      omega

/-- One event more. -/
theorem connRun_concat (s : ConnState) (evs : List ConnEvent) (e : ConnEvent) :
    connRun s (evs ++ [e]) = connStep (connRun s evs) e := by
  rw [connRun, connRun, List.foldl_append, List.foldl_cons, List.foldl_nil]

/-- While the accounts of a run hold, its addresses have one entry each. -/
theorem connRun_uniq {s : ConnState} (h0 : (s.ipLimits.map (·.ip)).Nodup) {evs : List ConnEvent}
    (hroom : ∀ pre e, pre ++ [e] <+: evs → HasRoom (connRun s pre) e)
    (hacc : ∀ pre, pre <+: evs → Accounted (connRun s pre)) :
    ∀ pre, pre <+: evs → ((connRun s pre).ipLimits.map (·.ip)).Nodup := by
  intro pre
  induction pre using List.reverseRecOn with
  | nil => exact fun _ => h0
  | append_singleton pre e ih =>
    intro hpre
    have hprefix : pre <+: evs := (List.prefix_append pre [e]).trans hpre
    obtain ⟨opened, hstep, -⟩ :=
      connStep_spec ((hacc pre hprefix).booked (ih hprefix)) (hroom pre e hpre)
    rw [connRun_concat]
    exact hstep.uniq

/-- The accounts hold along a run whose steps meet the condition. -/
theorem connRun_accounted {s : ConnState} (h0 : Accounted s)
    (huniq : (s.ipLimits.map (·.ip)).Nodup) {evs : List ConnEvent}
    (hroom : ∀ pre e, pre ++ [e] <+: evs → HasRoom (connRun s pre) e)
    (hok : ∀ pre e, pre ++ [e] <+: evs → StepOk (connRun s pre) e) :
    ∀ pre, pre <+: evs →
      Accounted (connRun s pre) ∧ ((connRun s pre).ipLimits.map (·.ip)).Nodup := by
  intro pre
  induction pre using List.reverseRecOn with
  | nil => exact fun _ => ⟨h0, huniq⟩
  | append_singleton pre e ih =>
    intro hpre
    obtain ⟨hacc, huniq'⟩ := ih ((List.prefix_append pre [e]).trans hpre)
    obtain ⟨opened, hstep, -⟩ := connStep_spec (hacc.booked huniq') (hroom pre e hpre)
    rw [connRun_concat]
    exact ⟨(connStep_accounted_iff hacc huniq' (hroom pre e hpre)).mpr (hok pre e hpre),
      hstep.uniq⟩

/-- A hub without connections. -/
theorem accounted_empty {cfg : ConnCfg} (trust : Bool) (hcfg : 2 ≤ cfg .perip) :
    Accounted { connCfg := cfg, trustLoopback := trust } := by
  have hbal : Balanced [] (inboundFrom []) :=
    ⟨fun e he => absurd he List.not_mem_nil, fun _ _ => rfl⟩
  refine ⟨hbal, fun ip => ?_,
    Balanced.fair (s := { connCfg := cfg, trustLoopback := trust }) hbal⟩
  show ((0 : Nat) : Int) ≤ cfg .perip
  omega

/-- The accounts of the connections hold in every state of a run exactly when every step of it
closes a dialled connection only while its address has no inbound one, and opens none past the cap
where the cap is not asked. -/
theorem accounted_iff (cfg : ConnCfg) (trust : Bool) (hcfg : 2 ≤ cfg .perip)
    (evs : List ConnEvent) (hroom : ∀ pre e, pre ++ [e] <+: evs →
      HasRoom (connRun { connCfg := cfg, trustLoopback := trust } pre) e) :
    (∀ pre, pre <+: evs → Accounted (connRun { connCfg := cfg, trustLoopback := trust } pre)) ↔
      ∀ pre e, pre ++ [e] <+: evs →
        StepOk (connRun { connCfg := cfg, trustLoopback := trust } pre) e := by
  constructor
  · intro hacc pre e hpre
    have hprefix : pre <+: evs := (List.prefix_append pre [e]).trans hpre
    have huniq := connRun_uniq (s := { connCfg := cfg, trustLoopback := trust })
      List.nodup_nil hroom hacc pre hprefix
    refine (connStep_accounted_iff (hacc pre hprefix) huniq (hroom pre e hpre)).mp ?_
    rw [← connRun_concat]
    exact hacc _ hpre
  · intro hok pre hpre
    exact (connRun_accounted (accounted_empty trust hcfg) List.nodup_nil hroom hok pre hpre).1

/-- The two steps of a run of two. -/
private theorem prefix_two {α : Type} {a b e : α} {pre : List α} (h : pre ++ [e] <+: [a, b]) :
    (pre = [] ∧ e = a) ∨ (pre = [a] ∧ e = b) := by
  obtain ⟨t, ht⟩ := h
  match pre with
  | [] => simp_all
  | [x] => simp_all
  | x :: y :: pre => simp at ht

/-- A bot connects and goes, and the accounts hold all along. -/
theorem accounted_bot :
    Accounted (connRun { connCfg := connDefaults, trustLoopback := false }
      [.accept "10.0.0.7".toList 100 true true none, .disconnect 0]) := by
  refine (accounted_iff connDefaults false (by decide) _ ?_).mpr ?_ _ List.prefix_rfl
  · intro pre e hpre ip now hasks
    rcases prefix_two hpre with ⟨rfl, rfl⟩ | ⟨rfl, rfl⟩
    · cases hasks
      exact ⟨by decide, by decide⟩
    · cases hasks
  · intro pre e hpre
    rcases prefix_two hpre with ⟨rfl, rfl⟩ | ⟨rfl, rfl⟩
    · have hasked : opensUnasked (connRun { connCfg := connDefaults, trustLoopback := false } [])
          (.accept "10.0.0.7".toList 100 true true none) = none := by decide
      exact ⟨fun c hc => (by cases hc), fun ip hip => by cases hasked.symm.trans hip⟩
    · refine ⟨fun c hc hout => ?_, fun ip hip => (by cases hip)⟩
      have hone : closes (connRun { connCfg := connDefaults, trustLoopback := false }
          [.accept "10.0.0.7".toList 100 true true none]) (.disconnect 0)
          = some { ip := "10.0.0.7".toList, inbound := true, sniffPending := true } := by decide
      cases hone.symm.trans hc
      cases hout

/-- A bot is connected from the address of a peer, and the dial to the peer is given up: the bot's
connection is open and no longer counted. -/
theorem not_accounted_dial :
    (connRun {} [.accept "10.0.0.7".toList 100 true true none,
    .dial "10.0.0.7".toList]).clients.length
        = 2 ∧
      ¬ Accounted (connRun {} [.accept "10.0.0.7".toList 100 true true none,
        .dial "10.0.0.7".toList, .dialled 1 false]) := by
  refine ⟨by decide, fun h => ?_⟩
  have hentry : ∀ e ∈ (connRun {} [.accept "10.0.0.7".toList 100 true true none,
    .dial "10.0.0.7".toList,
      .dialled 1 false]).ipLimits, e.activeConnections = 0 := by decide
  have hcount : inboundFrom (connRun {} [.accept "10.0.0.7".toList 100 true true none,
      .dial "10.0.0.7".toList, .dialled 1 false]).clients "10.0.0.7".toList = 1 := by decide
  have hmem : "10.0.0.7".toList ∈ (connRun {} [.accept "10.0.0.7".toList 100 true true none,
      .dial "10.0.0.7".toList, .dialled 1 false]).ipLimits.map (·.ip) := by decide
  obtain ⟨e, he, hip⟩ := List.mem_map.mp hmem
  have := h.balanced.entry e he
  rw [hip, hcount, hentry e he] at this
  omega

end IrcHub.Proofs
