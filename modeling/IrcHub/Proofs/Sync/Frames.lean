import IrcHub.Lib.Lww
import IrcHub.Proofs.Sync.Bots
import IrcHub.Proofs.Sync.Users

/-!
# `IrcHub.Proofs.Sync.Frames`: the frames of peers and bots keep the caps

A frame is cut at its first NUL and split into lines, so a line has neither a NUL nor a line end.
Every line keeps `Fits`, with one exception: a user line stamped zero or less for a user the hub
does not know makes a record without a type (`blankLine`, `blankPushLine`).

* `Fits.syncLine`, `Fits.processPeerSync`: a line and a frame of a peer
* `Fits.pushLine`, `Fits.processBotConfigPush`: a line and a push of a bot
* `Fits.processBotDelta`: a short push, which has no lines that make users
* `FrameSafe`, `PushSafe`: a frame and a push without such a line

Each of the two is a condition on the lines in the states they meet, so that a user that an
earlier line of the frame made counts as known. Where every character is allowed none is needed.
-/

set_option autoImplicit false

namespace IrcHub.Proofs

open IrcHub.Hub Str Table
open String (utf8Len)

variable {ok : Char → Prop} {s : HubState} {clk : Clock}

/-! ### Lines -/

/-- What follows a tag is part of the line. -/
theorem afterTag_sublist {tag line body : Str} (h : afterTag tag line = some body) :
    body.Sublist line := by
  unfold afterTag at h
  split at h
  · cases h
    exact List.drop_sublist _ _
  · cases h

/-- A frame is read up to its first NUL. -/
theorem not_mem_untilNul (t : Str) : '\x00' ∉ untilNul t := by
  intro h
  have hall : (untilNul t).all (· != '\x00') = true := List.all_takeWhile
  simpa using List.all_eq_true.mp hall _ h

/-- A line of a text that was cut at its first NUL. -/
private theorem chars_of_mem_splitOn (hok : WireOk ok) {frame line : Str} {cap : Nat}
    (h : line ∈ (trunc (untilNul frame) cap).splitOn '\n') : ∀ c ∈ line, ok c := by
  obtain ⟨hsub, hend⟩ := mem_splitOn h
  intro c hc
  refine hok c ?_ ?_
  · rintro rfl
    exact hend hc
  · rintro rfl
    exact not_mem_untilNul frame (mem_of_mem_trunc (hsub.subset hc))

/-- The lines of a peer's frame hold allowed characters only. They were split at line ends and
read up to a NUL, and every other character is allowed. -/
theorem chars_of_mem_frameLines (hok : WireOk ok) {frame line : Str}
    (h : line ∈ frameLines frame) :
    ∀ c ∈ line, ok c :=
  chars_of_mem_splitOn hok (List.mem_filter.mp h).1

/-- The same for the lines a bot pushes. -/
theorem chars_of_mem_pushLines (hok : WireOk ok) {frame line : Str}
    (h : line ∈ pushLines (untilNul frame)) : ∀ c ∈ line, ok c :=
  chars_of_mem_splitOn hok h

/-! ### Lines of a peer -/

/-- The memory of recent purges is not part of what is synced. -/
theorem Fits.recordRecentPurge (h : Fits ok s) (cutoff : Int) (id : Str) :
    Fits ok (recordRecentPurge clk s cutoff id) := by
  unfold Hub.recordRecentPurge
  simp only []
  split
  · exact { h with store := h.store }
  split
  · exact { h with store := h.store }
  · exact { h with store := h.store }

/-- A purge that a peer asks for. -/
theorem Fits.syncPurge (h : Fits ok s) (line body : Str) (cnt : SyncCounters) :
    Fits ok (syncPurge clk s line body cnt).1 := by
  unfold Hub.syncPurge
  split
  · exact h
  split
  · exact h
  · exact Fits.broadcast (Fits.executePurge (h.recordRecentPurge _ _) _) _

/-- What a peer learned of a channel. The modes, the key and the stamp are checked on the way in.
-/
theorem Fits.learnedIngest (h : Fits ok s) (hok : WireOk ok) (body : Str) :
    Fits ok (learnedIngest clk s body).1 := by
  unfold Hub.learnedIngest
  split
  · exact h
  split
  · split
    · exact h
    · exact h.learnedPut hok _ _ _ (inI64_atoll _)
  · exact h

/-- The option flags of a peer. -/
theorem Fits.syncOpt (h : Fits ok s) (hok : WireOk ok) (line body : Str) (cnt : SyncCounters) :
    Fits ok (syncOpt clk s line body cnt).1 := by
  unfold Hub.syncOpt
  split
  · exact h
  rename_i flags ts hparse
  obtain ⟨hflags, hts⟩ := fits_parseOptValue hok hparse
  split
  · exact { h with opt := hflags, optTs := hts }
  · exact h

/-- A revocation of a peer. -/
theorem Fits.syncRevoke (h : Fits ok s) (hok : WireOk ok) {body : Str} (hbody : ∀ c ∈ body, ok c)
    (cnt : SyncCounters) : Fits ok (syncRevoke s body cnt).1 := by
  unfold Hub.syncRevoke
  split
  · exact h
  rename_i rv hparse
  have hmerge : Fits ok (Hub.revokeMerge s rv).1 :=
    h.revokeMerge (fits_revokeParse hok hbody hparse)
  simp only []
  split
  · exact hmerge
  · exact hmerge

/-- A line that starts with one of the tags. -/
theorem Fits.syncTagged (h : Fits ok s) (hok : WireOk ok) {line : Str} (hline : ∀ c ∈ line, ok c)
    {cnt : SyncCounters} {q : HubState × SyncCounters} (hq : syncTagged clk s line cnt = some q) :
    Fits ok q.1 := by
  unfold Hub.syncTagged at hq
  split at hq
  · cases hq
    exact h.syncPurge _ _ _
  split at hq
  · cases hq
    exact h
  split at hq
  · cases hq
    exact h.accessIngest hok _ _ _
  split at hq
  · cases hq
    exact h.learnedIngest hok _
  split at hq
  · cases hq
    exact h.syncOpt hok _ _ _
  split at hq
  · cases hq
    exact h.gsettingIngest _
  obtain ⟨body, hbody, rfl⟩ := Option.map_eq_some_iff.mp hq
  exact h.syncRevoke hok (fun c hc => hline c ((afterTag_sublist hbody).subset hc)) _

/-- A user line of a peer that leaves a record without a type. -/
def losesBlank (clk : Clock) (s : HubState) (typ : Char) (data : Str) : Bool :=
  match parseUserRecord data typ with
  | some inc => makesBlank clk s inc && !namesLive s inc
  | none => false

/-- A tag of the global table is a printable character. -/
private theorem fit_tag (hok : WireOk ok) (key : GlobalKey) : Fit ok 1 [key.tag] := by
  refine fit_of_ascii (Nat.le_refl 1) ?_
  intro c hc
  rw [List.mem_singleton.mp hc]
  cases key
  all_goals exact ⟨by decide, hok.print (by decide)⟩

/-- A line of a record by its kind. The line must not leave a user without a type, or the NUL that
stands for the missing type must be allowed: `hsafe` says one of the two. -/
theorem Fits.syncGlobal (h : Fits ok s) (hok : WireOk ok) {key : GlobalKey} {vstart line : Str}
    (hline : ∀ c ∈ vstart, ok c) (cnt : SyncCounters)
    (hsafe : ok '\x00' ∨ (key = .a ∨ key = .o → losesBlank clk s key.tag vstart = false)) :
    Fits ok (syncGlobal clk s key vstart line cnt).1 := by
  unfold Hub.syncGlobal
  simp only []
  split
  · rename_i huser
    simp only [Bool.and_eq_true, Bool.or_eq_true, decide_eq_true_eq] at huser
    refine h.syncUserRecord hok hline (fit_tag hok key) (hsafe.imp_right fun hno inc hinc => ?_)
    have hblank := hno huser.2
    rwa [losesBlank, hinc] at hblank
  split
  · exact h.syncMaskRecord hline
  split
  · exact h
  split
  · exact h
  rename_i v tsText hsplit
  split
  · exact h
  have hstore : Fits ok (Hub.storeGlobalEntryRaw clk s key (trunc v 1024) (atoll tsText)).1 := by
    refine h.storeGlobalEntryRaw hok key ?_ (inI64_atoll _)
    intro c hc
    exact hline c ((rsplitOnce_sublist hsplit).1.subset (mem_of_mem_trunc hc))
  split
  · exact hstore
  · exact hstore

/-- A line about a bot. -/
theorem Fits.syncBotEntry (h : Fits ok s) (hok : WireOk ok) {ptr : Str} {cnt : SyncCounters}
    {q : HubState × SyncCounters} (hq : syncBotEntry clk s ptr cnt = some q) : Fits ok q.1 := by
  unfold Hub.syncBotEntry at hq
  split at hq
  · cases hq
    exact h
  split at hq
  · cases hq
    exact h
  simp only [] at hq
  split at hq
  · split at hq
    · cases hq
      exact h
    split at hq
    · cases hq
    · rename_i t stored hupdate
      cases hq
      exact h.updateEntry hok (inI64_atoll _) hupdate
  · split at hq
    · cases hq
    · rename_i t stored hupdate
      cases hq
      exact h.updateEntry hok (inI64_atoll _) hupdate

/-- A line of a peer that leaves a record without a type. -/
def blankLine (clk : Clock) (s : HubState) (line : Str) : Bool :=
  match globalLine line with
  | some (key, vstart) => (key = .a || key = .o) && losesBlank clk s key.tag vstart
  | none => false

/-- One line of a peer's frame, by what it starts with. -/
theorem Fits.syncLine {p q : HubState × SyncCounters} (h : Fits ok p.1) (hok : WireOk ok)
    {line : Str} (hline : ∀ c ∈ line, ok c) (hsafe : ok '\x00' ∨ blankLine clk p.1 line = false)
    (hq : syncLine clk p line = some q) : Fits ok q.1 := by
  unfold Hub.syncLine at hq
  split at hq
  · rename_i r htagged
    cases hq
    exact h.syncTagged hok hline htagged
  split at hq
  · exact h.syncBotEntry hok hq
  split at hq
  · rename_i key vstart hglobal
    cases hq
    have hsub : vstart.Sublist line := by
      unfold globalLine at hglobal
      split at hglobal
      · cases hglobal
      · rename_i k v hsplit
        obtain ⟨key', -, heq⟩ := Option.map_eq_some_iff.mp hglobal
        cases heq
        exact (splitOnce_sublist hsplit).2
    refine h.syncGlobal hok (fun c hc => hline c (hsub.subset hc)) _
      (hsafe.imp_right fun hno hkey => ?_)
    rw [blankLine, hglobal] at hno
    simp only [Bool.and_eq_false_iff] at hno
    refine hno.resolve_left ?_
    rcases hkey with rfl | rfl
    · exact Bool.noConfusion
    · exact Bool.noConfusion
  · exact h.syncBotEntry hok hq

/-! ### A frame of a peer -/

/-- No line of a frame leaves a record without a type. -/
def FrameSafe (clk : Clock) (s : HubState) (frame : Str) : Prop :=
  Lww.AlongM (fun p line => blankLine clk p.1 line = false) (syncLine clk) (s, {})
    (frameLines frame)

instance (clk : Clock) (s : HubState) (frame : Str) : Decidable (FrameSafe clk s frame) :=
  Lww.AlongM.decide _ _

/-- What is done once at the end of a frame: migration, the admin floor and the news for the
peers.
-/
theorem Fits.syncFinish (h : Fits ok s) (hok : WireOk ok) (cnt : SyncCounters) :
    Fits ok (syncFinish clk s cnt) := by
  have hrights : Fits ok (Hub.accessMigrate clk (Hub.accessPrune s)).1 :=
    Fits.accessMigrate h.accessPrune hok
  unfold Hub.syncFinish
  simp only []
  split
  · exact hrights
  split
  · exact hrights.floorBroadcast hok
  · exact Fits.broadcast (hrights.floorBroadcast hok) _

/-- A whole frame of a peer, by induction on its lines. The frame has to be safe in the state each
line meets, or every character allowed. -/
theorem Fits.processPeerSync {t : HubState} (h : Fits ok s) (hok : WireOk ok) {frame : Str}
    (hsafe : (∀ c, ok c) ∨ FrameSafe clk s frame) (ht : processPeerSync clk s frame = some t) :
    Fits ok t := by
  unfold Hub.processPeerSync at ht
  obtain ⟨p, hlines, rfl⟩ := Option.map_eq_some_iff.mp ht
  have halong : Lww.AlongM (fun p line => ok '\x00' ∨ blankLine clk p.1 line = false)
      (Hub.syncLine clk) (s, {}) (frameLines frame) := by
    rcases hsafe with hall | hsafe
    · exact Lww.alongM_of_forall (fun _ _ => .inl (hall _)) _ _
    · exact hsafe.mono fun _ _ hno => .inr hno
  have hp : Fits ok p.1 := by
    refine Lww.inv_runM (I := fun p => Fits ok p.1) (Q := fun line => ∀ c ∈ line, ok c) ?_ h
      (fun line hline => chars_of_mem_frameLines hok hline) halong hlines
    exact fun p line q hp hline hno hq => hp.syncLine hok hline hno hq
  exact hp.syncFinish hok _

/-! ### Lines of a bot -/

/-- A pushed line is noted for the peers. The state is the one given. -/
theorem Fits.pushSync {a : PushAcc} {t : HubState} (h : Fits ok t) (line : Str) :
    Fits ok (a.sync t line).state := by
  unfold PushAcc.sync
  split
  · exact h.broadcast _
  · exact h

/-- The same with whether the line was stored. -/
theorem Fits.pushWrote {a : PushAcc} {p : HubState × Bool} (h : Fits ok p.1) (line : Str) :
    Fits ok (a.wrote p line).state := by
  unfold PushAcc.wrote
  split
  · exact h.pushSync line
  · exact h

/-- Text that a format picks out of a line is part of the line, or the text that was there. -/
private theorem chars_convText {data old : Str} (fmt : List Fmt) (i : Nat)
    (hdata : ∀ c ∈ data, ok c) (hold : ∀ c ∈ old, ok c) :
    ∀ c ∈ convText (sscanf data fmt) i old, ok c := by
  intro c hc
  unfold convText at hc
  cases hget : (sscanf data fmt)[i]? with
  | none =>
    rw [hget] at hc
    exact hold c hc
  | some v =>
    rw [hget] at hc
    exact hdata c ((mem_sscanf (List.mem_of_getElem? hget)).1.subset hc)

/-- A number that a format picks out is a 64-bit one, or the number that was there. -/
private theorem inI64_convNum {data : Str} {old : Int} (fmt : List Fmt) (i : Nat)
    (hold : InI64 old) : InI64 (convNum (sscanf data fmt) i old) := by
  unfold convNum
  cases hget : (sscanf data fmt)[i]? with
  | none => exact hold
  | some v => exact (mem_sscanf (List.mem_of_getElem? hget)).2

/-- The low 32 bits of a number are a 64-bit number. -/
private theorem inI64_toI32 (x : Int) : InI64 (toI32 x) := by
  unfold toI32 InI64 i64Min i64Max
  omega

/-- The fields of a pushed channel come from its line. -/
private theorem parsePushChannel_fits {data : Str} {r : PushChannel} (hdata : ∀ c ∈ data, ok c)
    (h : parsePushChannel data = some r) :
    (∀ c ∈ r.chan, ok c) ∧ (∀ c ∈ r.key, ok c) ∧ (∀ c ∈ r.op, ok c) ∧ InI64 r.modes
    ∧ InI64 r.ts := by
  have hnil : ∀ c ∈ ([] : Str), ok c := fun c hc => (List.not_mem_nil hc).elim
  unfold parsePushChannel at h
  simp only [] at h
  split at h
  · cases h
    exact ⟨chars_convText _ _ hdata hnil, chars_convText _ _ hdata hnil,
      chars_convText _ _ hdata hnil, inI64_toI32 _, inI64_convNum _ _ inI64_zero⟩
  split at h
  · cases h
    exact ⟨chars_convText _ _ hdata (chars_convText _ _ hdata hnil), hnil,
      chars_convText _ _ hdata (chars_convText _ _ hdata hnil), inI64_toI32 _,
      inI64_convNum _ _ (inI64_convNum _ _ inI64_zero)⟩
  split at h
  · cases h
    exact ⟨chars_convText _ _ hdata (chars_convText _ _ hdata (chars_convText _ _ hdata hnil)),
      chars_convText _ _ hdata (chars_convText _ _ hdata hnil),
      chars_convText _ _ hdata (chars_convText _ _ hdata (chars_convText _ _ hdata hnil)),
      inI64_zero, inI64_convNum _ _ (inI64_convNum _ _ (inI64_convNum _ _ inI64_zero))⟩
  split at h
  · cases h
    exact ⟨chars_convText _ _ hdata (chars_convText _ _ hdata (chars_convText _ _ hdata
        (chars_convText _ _ hdata hnil))), hnil,
      chars_convText _ _ hdata (chars_convText _ _ hdata (chars_convText _ _ hdata
        (chars_convText _ _ hdata hnil))), inI64_zero,
      inI64_convNum _ _ (inI64_convNum _ _ (inI64_convNum _ _ (inI64_convNum _ _ inI64_zero)))⟩
  · cases h

/-- A number is written in digits and a sign, which are allowed. -/
theorem chars_ofInt (hok : WireOk ok) {x : Int} (h : InI64 x) : ∀ c ∈ ofInt x, ok c :=
  (fit_ofInt h.1 h.2 fun _ hc => hok.print hc).chars

/-- A channel that a bot pushes. Its line is put together anew from the parts. -/
theorem Fits.pushChannel {a : PushAcc} (h : Fits ok a.state) (hok : WireOk ok) (id : Str)
    {data : Str} (hdata : ∀ c ∈ data, ok c) : Fits ok (pushChannel clk id data a).state := by
  unfold Hub.pushChannel
  split
  · exact h
  rename_i r hparse
  obtain ⟨hchan, hkey, hop, hmodes, hts⟩ := parsePushChannel_fits hdata hparse
  split
  · exact h
  refine Fits.pushWrote (h.updateGlobalEntry hok .c hchan ?_ hop hts) _
  intro c hc
  rcases List.mem_append.mp (mem_of_mem_trunc hc) with hc | hc
  · exact hkey c hc
  rcases List.mem_cons.mp hc with rfl | hc
  · exact hok.print (by decide)
  · exact chars_ofInt hok hmodes c hc

/-- A ban that a bot pushes, with its own stamp. -/
theorem Fits.banBotWrite (h : Fits ok s) (id value : Str) {ts : Int} (hts : InI64 ts) :
    Fits ok (banBotWrite clk s id value ts).1 := by
  have hput : Fits ok (Hub.putRecord clk s .B value ts).1 := h.putRecord .B value hts
  have hite : ∀ (c : Prop) [Decidable c] (p q : HubState × Bool), Fits ok p.1 → Fits ok q.1 →
      Fits ok (if c then p else q).1 := fun c _ p q hp hq =>
    iteInduction (motive := fun r : HubState × Bool => Fits ok r.1) (fun _ => hp) fun _ => hq
  -- one refusal after the other, the ban is put in two places
  unfold Hub.banBotWrite
  refine hite _ _ _ h (hite _ _ _ h (hite _ _ _ (hite _ _ _ hput h) ?_))
  exact hite _ _ _ h (hite _ _ _ h (hite _ _ _ h (hite _ _ _ h hput)))

/-- The same from the line. -/
theorem Fits.pushBan {a : PushAcc} (h : Fits ok a.state) (id data : Str) :
    Fits ok (pushBan clk id data a).state := by
  unfold Hub.pushBan
  split
  · exact h
  split
  · exact h
  · exact Fits.pushWrote (h.banBotWrite id _ (inI64_atoll _)) _

/-- A mask that a bot pushes. -/
theorem Fits.pushMask {a : PushAcc} (h : Fits ok a.state) {data : Str}
    (hdata : ∀ c ∈ data, ok c) :
    Fits ok (pushMask clk data a).state := by
  unfold Hub.pushMask
  split
  · split
    · exact h
    split
    · exact h
    rename_i inc hparse
    have hinc := fits_parseMaskRecord hdata hparse
    split
    · exact h
    rename_i t mi hslot
    have ht : Fits ok t := h.maskSlot hinc hslot
    split
    · exact ht
    rename_i cur hget
    split
    · exact ht.raise (.mask mi) hinc.used
    · exact Fits.pushSync (ht.writeMask hinc hget) _
  · exact h

/-- A user line of a bot that leaves a record without a type. -/
def pushLosesBlank (clk : Clock) (s : HubState) (typ : Char) (data : Str) : Bool :=
  match parseUserRecord data typ with
  | some inc => makesBlank clk s inc
  | none => false

/-- A user that a bot pushes. Here too a line must not leave a user without a type. A pushed user
is looked up by uuid only, so a live user of its name does not keep the blank record from being
made. -/
theorem Fits.pushUser {a : PushAcc} (h : Fits ok a.state) (hok : WireOk ok) {typ : Char}
    {data : Str} (hdata : ∀ c ∈ data, ok c) (htyp : Fit ok 1 [typ])
    (hsafe : ok '\x00' ∨ pushLosesBlank clk a.state typ data = false) :
    Fits ok (pushUser clk typ data a).state := by
  unfold Hub.pushUser
  split
  · exact h
  rename_i inc hparse
  have hinc := fits_parseUserRecord hok hdata htyp hparse
  split
  · exact h
  rename_i t ui hslot
  have hfits := slotFits_pushUserSlot h hslot
  split
  · cases hfits with
    | held t i ht => exact ht
    | blank hroom hahead hzero =>
      rename_i hnone
      simp at hnone
  rename_i cur hget
  split
  · rename_i hlost
    refine hfits.lose h hinc hget (by simpa using hlost) (hsafe.imp_right fun hno => ?_)
    rw [pushLosesBlank, hparse] at hno
    rw [show makesBlank clk a.state inc = false from hno]
    exact Bool.false_ne_true
  · have hwrite := hfits.write h hinc hget
    simp only []
    split
    · exact hwrite.pushSync _
    · exact hwrite

/-- A value that a bot pushes about itself. -/
theorem Fits.pushOwn {a b : PushAcc} (h : Fits ok a.state) (hok : WireOk ok) {id key value : Str}
    {ts : Int} (hts : InI64 ts) (hb : pushOwn clk id key value ts a = some b) :
    Fits ok b.state := by
  unfold Hub.pushOwn at hb
  split at hb
  · cases hb
  · rename_i p hupdate
    cases hb
    exact Fits.pushWrote (h.updateEntry hok hts hupdate) _

/-- The stamp of an entry of a bot, zero without one. -/
theorem BotFits.inI64_entry {b : BotConfig} (hb : BotFits ok b) (key : BotKey) :
    InI64 (((b.entry key).map (·.timestamp)).getD 0) := by
  cases hentry : b.entry key with
  | none => exact inI64_zero
  | some e => exact (hb.entries e (List.mem_of_find?_eq_some hentry)).stamp

/-- A hub list that a bot pushes, stamped by the clock. -/
theorem Fits.pushHublist {a b : PushAcc} (h : Fits ok a.state) (hok : WireOk ok)
    (hclk : InI64 clk.now) {id v : Str} (hb : pushHublist clk id v a = some b) :
    Fits ok b.state := by
  unfold Hub.pushHublist at hb
  split at hb
  · cases hb
    exact h
  rename_i bot hbot
  split at hb
  · cases hb
    exact h
  · obtain ⟨i, -, hget⟩ := Option.bind_eq_some_iff.mp hbot
    exact h.pushOwn hok (inI64_lwwNextTs hclk ((h.bots.get hget).inI64_entry .hl)) hb

/-- A nick or hostmask that a bot pushes. -/
theorem Fits.pushIdentity {a b : PushAcc} (h : Fits ok a.state) (hok : WireOk ok)
    {id key data : Str} {n : Nat} (hb : pushIdentity clk id key data n a = some b) :
    Fits ok b.state := by
  unfold Hub.pushIdentity at hb
  split at hb
  · rename_i value ts hscan
    have hts : InI64 ts.num := (mem_sscanf (show ts ∈ sscanf data _ by rw [hscan]; simp)).2
    exact h.pushOwn hok hts hb
  · cases hb
    exact h

/-- A flag or binding that a bot pushes. -/
theorem Fits.pushAccess {a : PushAcc} (h : Fits ok a.state) (hok : WireOk ok) (kind : Char)
    (body line : Str) : Fits ok (pushAccess clk kind body line a).state := by
  unfold Hub.pushAccess
  split
  · exact h
  · exact Fits.pushWrote (h.accessIngest hok kind body true) _

/-- A printable letter is a text of one byte. -/
private theorem fit_letter (hok : WireOk ok) {c : Char} (h : 0x20 ≤ c.toNat ∧ c.toNat < 128) :
    Fit ok 1 [c] := by
  refine fit_of_ascii (Nat.le_refl 1) ?_
  intro d hd
  rw [List.mem_singleton.mp hd]
  exact ⟨h.2, hok.print h.1⟩

/-- A pushed line by its letter. A hub that alone may change users drops the lines that could go
wrong, so those are safe there. -/
theorem Fits.pushTyped {a b : PushAcc} (h : Fits ok a.state) (hok : WireOk ok) {id : Str}
    {typ : Char} {data : Str} (hdata : ∀ c ∈ data, ok c)
    (hsafe : ok '\x00' ∨ (hubOnlyMutations a.state = false → typ = 'a' ∨ typ = 'o' →
      pushLosesBlank clk a.state typ data = false))
    (hb : pushTyped clk id typ data a = some b) : Fits ok b.state := by
  unfold Hub.pushTyped at hb
  split at hb
  · cases hb
    exact h
  rename_i hopen
  have hown : typ = 'a' ∨ typ = 'o' → hubOnlyMutations a.state = false := by
    intro htyp
    rcases htyp with rfl | rfl
    · simpa using hopen
    · simpa using hopen
  split at hb
  · cases hb
    exact h.pushChannel hok id hdata
  · cases hb
    exact Fits.pushWrote (h.learnedIngest hok data) _
  · cases hb
    exact h.pushBan id data
  · cases hb
    exact h.pushMask hdata
  · cases hb
    exact h.pushUser hok hdata (fit_letter hok (by decide))
      (hsafe.imp_right fun hno => hno (hown (.inr rfl)) (.inr rfl))
  · cases hb
    exact h.pushUser hok hdata (fit_letter hok (by decide))
      (hsafe.imp_right fun hno => hno (hown (.inl rfl)) (.inl rfl))
  · exact h.pushIdentity hok hb
  · exact h.pushIdentity hok hb
  · cases hb
    exact h

/-- A line of a bot that leaves a record without a type. -/
def blankPushLine (clk : Clock) (frozen : Bool) (s : HubState) (line : Str) : Bool :=
  pushLineTaken frozen line && !hubOnlyMutations s && match line with
    | typ :: '|' :: data => (typ == 'a' || typ == 'o') && pushLosesBlank clk s typ data
    | _ => false

/-- One pushed line, whatever it is. -/
theorem Fits.pushLine {a b : PushAcc} {frozen : Bool} {id line : Str} (h : Fits ok a.state)
    (hok : WireOk ok) (hclk : InI64 clk.now) (hline : ∀ c ∈ line, ok c)
    (hsafe : ok '\x00' ∨ blankPushLine clk frozen a.state line = false)
    (hb : pushLine clk frozen id a line = some b) : Fits ok b.state := by
  unfold Hub.pushLine at hb
  split at hb
  · cases hb
    exact h
  rename_i htaken
  split at hb
  · cases hb
    exact h.pushAccess hok _ _ _
  split at hb
  · cases hb
    exact h.pushAccess hok _ _ _
  split at hb
  · exact h.pushHublist hok hclk hb
  split at hb
  · rename_i typ data _ _ _
    refine h.pushTyped hok (fun c hc => hline c (by simp [hc])) (hsafe.imp_right ?_) hb
    intro hno hown htyp
    have htaken' : pushLineTaken frozen (typ :: '|' :: data) = true := by simpa using htaken
    have hletter : (typ == 'a' || typ == 'o') = true := by simpa using htyp
    simpa [blankPushLine, htaken', hown, hletter] using hno
  · cases hb
    exact h

/-! ### A push and a delta -/

/-- No line of a push leaves a record without a type. -/
def PushSafe (clk : Clock) (s : HubState) (id frame : Str) : Prop :=
  Lww.AlongM (fun a line => blankPushLine clk (configFrozen s) a.state line = false)
    (pushLine clk (configFrozen s) id) { state := s } (pushLines (untilNul frame))

/-- What is done once at the end of a push. -/
theorem Fits.pushFinish {a : PushAcc} {t : HubState} (h : Fits ok a.state) (hok : WireOk ok)
    (hclk : InI64 clk.now) {id : Str} (ht : pushFinish clk id a = some t) : Fits ok t := by
  have hrights : Fits ok (Hub.accessMigrate clk a.state).1 := h.accessMigrate hok
  unfold Hub.pushFinish at ht
  simp only [] at ht
  split at ht
  · cases ht
    exact hrights
  split at ht
  · cases ht
  rename_i p hseen
  have hp : Fits ok p.1 := Fits.updateEntry (hrights.floorBroadcast hok) hok hclk hseen
  cases ht
  split
  · exact hp
  · exact hp.broadcast _

/-- A whole push of a bot, by induction on its lines, under the same condition as a frame of a
peer. -/
theorem Fits.processBotConfigPush {t : HubState} (h : Fits ok s) (hok : WireOk ok)
    (hclk : InI64 clk.now) {id frame : Str} (hsafe : (∀ c, ok c) ∨ PushSafe clk s id frame)
    (ht : processBotConfigPush clk s id frame = some t) : Fits ok t := by
  unfold Hub.processBotConfigPush at ht
  simp only [] at ht
  split at ht
  · cases ht
    exact h
  split at ht
  · cases ht
  rename_i a hlines
  have halong : Lww.AlongM
      (fun a line => ok '\x00' ∨ blankPushLine clk (configFrozen s) a.state line = false)
      (Hub.pushLine clk (configFrozen s) id) { state := s } (pushLines (untilNul frame)) := by
    rcases hsafe with hall | hsafe
    · exact Lww.alongM_of_forall (fun _ _ => .inl (hall _)) _ _
    · exact hsafe.mono fun _ _ hno => .inr hno
  have ha : Fits ok a.state := by
    refine Lww.inv_runM (I := fun a => Fits ok a.state) (Q := fun line => ∀ c ∈ line, ok c) ?_ h
      (fun line hline => chars_of_mem_pushLines hok hline) halong hlines
    exact fun a line b ha hline hno hb => ha.pushLine hok hclk hline hno hb
  exact ha.pushFinish hok hclk ht

/-- The stamp of a delta. -/
private theorem inI64_deltaStamp (hclk : InI64 clk.now) (rest : List Conv) :
    (∀ u ∈ rest, InI64 u.num) →
      InI64 (match rest with
        | t :: _ => if t.num = 0 then clk.now else t.num
        | [] => clk.now) := by
  intro hrest
  cases rest with
  | nil => exact hclk
  | cons u us =>
    show InI64 (if u.num = 0 then clk.now else u.num)
    split
    · exact hclk
    · exact hrest u List.mem_cons_self

/-- A short push of a bot. It has no lines that make users, so no condition is needed. -/
theorem Fits.processBotDelta {t : HubState} (h : Fits ok s) (hok : WireOk ok)
    (hclk : InI64 clk.now) {id frame : Str} (ht : processBotDelta clk s id frame = some t) :
    Fits ok t := by
  unfold Hub.processBotDelta at ht
  split at ht
  · rename_i k v rest hscan
    simp only [] at ht
    have hrest : ∀ u ∈ rest, InI64 u.num := by
      intro u hu
      have hmem : u ∈ k :: v :: rest := List.mem_cons_of_mem _ (List.mem_cons_of_mem _ hu)
      rw [← hscan] at hmem
      exact (mem_sscanf hmem).2
    split at ht
    · cases ht
      exact h
    split at ht
    · cases ht
      exact h
    split at ht
    · cases ht
    rename_i p hupdate
    have hp : Fits ok p.1 := h.updateEntry hok (inI64_deltaStamp hclk rest hrest) hupdate
    cases ht
    exact iteInduction (motive := Fits ok) (fun _ => hp.broadcast _) (fun _ => hp)
  · cases ht
    exact h

end IrcHub.Proofs
