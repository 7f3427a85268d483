import IrcHub.Hub.Modes
import IrcHub.Proofs.Convergence.Records
import IrcHub.Proofs.Delete.Reach

/-!
# `IrcHub.Proofs.Bans.Sweep`: what a sweep leaves of the global table

What a sweep leaves of the global table. A sweep rewrites in place: `sweptEntry` is an entry after
it, and the table after it is the table of the swept entries (`bansSweep_entries`). The tombstone
is the one the cascade writes for the same ban (`sweepTombstone_eq`), so any two hubs that sweep a
record leave the same one.

- `field_ban`: the fields the sweep reads are those of the record
- `sweepEntry_entries`: one step of the walk rewrites the entry it looks at
- `foldl_modify`: so the walk rewrites each entry once
- `sweepDue`: a sweep that takes place

The walk goes through the store functions, with their index and their counts. All of that is left
out of the statement here: it is the invariant of the store, and this module is about the table.
-/

set_option autoImplicit false

namespace IrcHub.Proofs

open IrcHub.Hub Str
open String (utf8Len)

section Entries

variable {clk : Clock} {s : HubState} {c : Cascade} {i : Nat}

/-- The first two fields of a ban, as the sweep and the ban commands read them. A field is cut to
its buffer, and the fields of a valid ban fit. -/
theorem field_ban (f : BanFields) :
    field f.text 0 maxChan = f.chan ∧ field f.text 1 (banMaskMax + 1) = f.mask := by
  have hchan : utf8Len f.chan < maxChan := by
    have hlen := utf8Len_le_of_recChanOk f.chanOk
    have hmax : maxChan = 65 := rfl
    omega
  have hmask : utf8Len f.mask < banMaskMax + 1 := by
    have hlen := utf8Len_le_of_recMaskOk f.maskOk
    have hmax : banMaskMax = 120 := rfl
    omega
  have hsplit : f.text.splitOn '|' = f.chan :: f.mask ::
      (f.expires ++ '|' :: (f.flags ++ '|' :: f.setter) ++ '|'
      :: (f.reason ++ '|' :: f.op)).splitOn '|' := by
    rw [BanFields.text, BanFields.headText, List.append_assoc, List.cons_append,
      List.splitOn_append_cons_self_of_not_mem (bar_notMem_of_recChanOk f.chanOk),
        List.append_assoc,
      List.cons_append, List.splitOn_append_cons_self_of_not_mem
        (bar_notMem_of_recMaskOk f.maskOk)]
  rw [field, field, hsplit]
  exact ⟨trunc_of_lt hchan, trunc_of_lt hmask⟩

/-- Every hub writes the same text over an expired ban, the one the cascade writes too. -/
theorem sweepTombstone_eq {v : Str} (hv : recordValid .B v = true) :
    sweepTombstone v = tombstoneOf .B v := by
  obtain ⟨f, rfl⟩ := recordValid_ban_iff.mp hv
  obtain ⟨hchan, hmask⟩ := field_ban f
  rw [sweepTombstone, hchan, hmask, tombstoneOf, if_neg (by decide), ident_ban]

/-- An entry after a sweep. -/
def sweptEntry (clk : Clock) (e : GlobalEntry) : GlobalEntry :=
  if banExpired clk.now e && !tsAhead clk (satSucc e.timestamp)
      && decide (e.timestamp ≤ satSucc e.timestamp) then
    { e with value := tombstoneOf .B e.value, timestamp := satSucc e.timestamp }
  else e

/-- A change that leaves the row there is none. -/
private theorem modify_eq_self {l : List GlobalEntry} {f : GlobalEntry → GlobalEntry}
    {e : GlobalEntry} (hget : l[i]? = some e) (hf : f e = e) : l.modify i f = l := by
  rw [List.modify_eq_set_getElem?, hget]
  show l.set i (f e) = l
  rw [hf]
  exact Table.set_of_getElem? hget

/-- The walk of the sweep looks at one entry at a time and rewrites no other. `hs` is the
invariant of the store at this point of the walk: it makes the record put there a valid one. -/
theorem sweepEntry_entries (hs : StoreInv c.state) :
    (sweepEntry clk c i).state.globalEntries = c.state.globalEntries.modify i
    (sweptEntry clk) := by
  unfold sweepEntry
  split
  -- no such entry
  · rename_i hget
    rw [List.modify_eq_set_getElem?, hget]
    rfl
  rename_i e hget
  -- the entry is not due
  split
  · rename_i hno
    refine (modify_eq_self hget ?_).symm
    rw [sweptEntry, if_neg]
    rw [Bool.not_eq_true'] at hno
    simp [hno]
  rename_i hyes
  rw [Bool.not_eq_true', Bool.not_eq_false] at hyes
  -- it is a live ban, so a valid record
  have hexp : e.key = .B ∧ globalValueActive e.value = true := by
    simp only [banExpired, Bool.and_eq_true, decide_eq_true_eq] at hyes
    exact hyes.1.1
  have hmem := List.mem_of_getElem? hget
  have hvalid := (hs.entryOk e hmem).modes (by rw [hexp.1]; rfl)
  have hact : entryActive e = true := by rw [entryActive, hexp.1, recActive, hexp.2]; rfl
  have hpos : 0 < satSucc e.timestamp := by
    have hmax : i64Max = 9223372036854775807 := rfl
    have hts := hvalid.2
    rw [satSucc]
    omega
  -- its tombstone is put, and written over it
  have hput := putRecord_tombstoneOf hs hget (.inr hexp.1) hact clk (satSucc e.timestamp)
  rw [hexp.1] at hput
  simp only [sweepTombstone_eq (hexp.1 ▸ hvalid.1), hput]
  have hset : ∀ t : HubState, t.globalEntries
      = (overwrite c.state i e (tombstoneOf .B e.value) (satSucc e.timestamp) false).globalEntries
        →
      sweptEntry clk e = { e with value := tombstoneOf .B e.value,
                                  timestamp := satSucc e.timestamp } →
      t.globalEntries = c.state.globalEntries.modify i (sweptEntry clk) := by
    intro t ht hswept
    rw [ht, List.modify_eq_set_getElem?, hget]
    show _ = c.state.globalEntries.set i (sweptEntry clk e)
    rw [hswept]
    rfl
  -- the put is taken, or the stamp is refused and the entry stays
  by_cases hok : 0 < satSucc e.timestamp ∧ tsAhead clk (satSucc e.timestamp) = false
      ∧ e.timestamp ≤ satSucc e.timestamp
  · have hswept : sweptEntry clk e
        = { e with value := tombstoneOf .B e.value, timestamp := satSucc e.timestamp } := by
      rw [sweptEntry, if_pos]
      simp [hyes, hok.2.1, hok.2.2]
    rw [if_pos hok]
    refine hset _ ?_ hswept
    rw [if_neg (by simp)]
    exact (note_globalEntries _ _ _ _).1
  · rw [if_neg hok]
    refine (modify_eq_self hget ?_).symm
    rw [sweptEntry, if_neg]
    simp only [Bool.and_eq_true, Bool.not_eq_true', decide_eq_true_eq]
    exact fun h => hok ⟨hpos, h.1.2, h.2⟩

/-- A loop over the places of a tail leaves the head. -/
private theorem foldl_modify_cons {f : GlobalEntry → GlobalEntry} (e : GlobalEntry)
    (is : List Nat) (l : List GlobalEntry) :
    is.foldl (fun t i => t.modify (i + 1) f) (e :: l)
      = e :: is.foldl (fun t i => t.modify i f) l := by
  induction is generalizing l with
  | nil => rfl
  | cons i is ih =>
    rw [List.foldl_cons, List.modify_succ_cons, ih, List.foldl_cons]

/-- One position after another, the walk rewrites the whole table. -/
private theorem foldl_modify (f : GlobalEntry → GlobalEntry) (l : List GlobalEntry) :
    (List.range l.length).foldl (fun t i => t.modify i f) l = l.map f := by
  induction l with
  | nil => rfl
  | cons e l ih =>
    rw [List.length_cons, List.range_succ_eq_map, List.foldl_cons, List.foldl_map,
      List.modify_zero_cons, foldl_modify_cons, ih, List.map_cons]

/-- A sweep takes place: not within the interval of the last one, and not on a frozen hub. -/
def sweepDue (clk : Clock) (s : HubState) : Bool :=
  !(s.bansSweptAt ≠ 0 && clk.now - s.bansSweptAt < banSweepInterval) && !configFrozen s

/-- The table after a sweep: each entry swept, or nothing changed where the sweep was not due. -/
theorem bansSweep_entries (clk : Clock) (hs : StoreInv s) :
    (bansSweep clk s).globalEntries
      = if sweepDue clk s then s.globalEntries.map (sweptEntry clk) else s.globalEntries := by
  have hwalk : ∀ (is : List Nat) (c : Cascade), StoreInv c.state →
      (is.foldl (sweepEntry clk) c).state.globalEntries
        = is.foldl (fun t i => t.modify i (sweptEntry clk)) c.state.globalEntries := by
    intro is
    induction is with
    | nil => intro c _; rfl
    | cons i is ih =>
      intro c hc
      have hstep : StoreInv (sweepEntry clk c i).state :=
        sweepEntry_induction (fun _ _ hs _ => hs.putRecord clk .B _ _)
          (fun s p hs => hs.of_sameTable (sameTable_broadcast s p)) i hc
      rw [List.foldl_cons, ih _ hstep, sweepEntry_entries hc, List.foldl_cons]
  unfold bansSweep sweepDue
  split
  · rename_i hsoon
    rw [hsoon]
    rfl
  rename_i hdue
  rw [Bool.not_eq_true] at hdue
  simp only [hdue]
  have hfrozen : configFrozen { s with bansSweptAt := clk.now } = configFrozen s := rfl
  rw [hfrozen]
  split
  · rename_i hfz
    rw [hfz]
    rfl
  rename_i hfz
  rw [Bool.not_eq_true] at hfz
  have hall : ((List.range s.globalEntries.length).foldl (sweepEntry clk)
      { state := { s with bansSweptAt := clk.now } }).state.globalEntries
        = s.globalEntries.map (sweptEntry clk) := by
    have hmark : StoreInv { s with bansSweptAt := clk.now } := hs
    rw [hwalk _ _ hmark, foldl_modify]
  rw [hfz]
  split
  · exact hall
  · exact hall

end Entries

end IrcHub.Proofs
