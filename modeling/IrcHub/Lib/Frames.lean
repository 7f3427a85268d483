import IrcHub.Lib.Channel

/-!
# `IrcHub.Lib.Frames`: frames with a length before them

A frame travels as its length in four bytes, the most significant first, and then its bytes. A
stream cuts frames anywhere: a receiver has some bytes and does not know whether more will come.

`next` reads one frame off the front of what has arrived, and refuses a length above a limit. What
it says does not change as more bytes arrive (`next_append_frame`, `next_append_over`); only that
it has to wait does. So a whole stream has its frames whatever the cuts:

* `parse` reads them under limits that are given, one for each frame
* `deliver` reads them under the limits of a receiver that each frame may change, as one does that
  allows more after a login
* `parse_concat`: reading goes on with what is left
* `parse_wires`: the frames that were written are the frames that are read

A length above the limit ends the reading. The limit is the receiver's at that moment, and the
same bytes may pass under a later one, which is why it is an argument throughout and not fixed.
-/

set_option autoImplicit false

namespace Frames

open Channel

/-! ### One frame -/

/-- The length that some bytes start with. -/
def prefixLen (bs : List UInt8) : Nat := ofBeBytes ((bs.take 4).map UInt8.toNat)

/-- A frame as it travels. -/
def wire (f : List UInt8) : List UInt8 := (beBytes 4 f.length).map UInt8.ofNat ++ f

/-- What the front of some bytes is. -/
inductive Next
  /-- A part of a frame. -/
  | wait
  /-- A length above the limit. -/
  | overlong (n : Nat)
  | frame (f rest : List UInt8)
  deriving Repr, DecidableEq

def next (room : Int) (bs : List UInt8) : Next :=
  if bs.length < 4 then .wait
  else if room < prefixLen bs then .overlong (prefixLen bs)
  else if bs.length < 4 + prefixLen bs then .wait
  else .frame ((bs.drop 4).take (prefixLen bs)) (bs.drop (4 + prefixLen bs))

/-- The number read so far is above the bytes that follow. -/
theorem foldl_div {l : List Nat} (h : ∀ b ∈ l, b < 256) (n : Nat) :
    l.foldl (fun n b => n * 256 + b) n / 256 ^ l.length = n := by
  induction l generalizing n with
  | nil => exact Nat.div_one n
  | cons b l ih =>
    have hb : b < 256 := h b List.mem_cons_self
    rw [List.foldl_cons, List.length_cons, Nat.pow_succ, ← Nat.div_div_eq_div_mul,
      ih fun x hx => h x (List.mem_cons_of_mem b hx)]
    omega

/-- Bytes are those of their number. -/
theorem beBytes_ofBeBytes {l : List Nat} (h : ∀ b ∈ l, b < 256) :
    beBytes l.length (ofBeBytes l) = l := by
  suffices hfrom : ∀ n, beBytes l.length (l.foldl (fun n b => n * 256 + b) n) = l from hfrom 0
  induction l with
  | nil => exact fun _ => rfl
  | cons b l ih =>
    intro n
    have hrest : ∀ x ∈ l, x < 256 := fun x hx => h x (List.mem_cons_of_mem b hx)
    rw [List.foldl_cons, List.length_cons, beBytes, foldl_div hrest, ih hrest,
      Nat.mul_add_mod_of_lt (h b List.mem_cons_self)]

/-- The first four bytes are those of the length they stand for. -/
theorem prefix_bytes {bs : List UInt8} (h : 4 ≤ bs.length) :
    (beBytes 4 (prefixLen bs)).map UInt8.ofNat = bs.take 4 := by
  have hbytes : ∀ b ∈ (bs.take 4).map UInt8.toNat, b < 256 := by
    intro b hb
    obtain ⟨x, -, rfl⟩ := List.mem_map.mp hb
    exact x.toNat_lt
  have hlen : ((bs.take 4).map UInt8.toNat).length = 4 := by
    rw [List.length_map, List.length_take]
    omega
  have hof := beBytes_ofBeBytes hbytes
  rw [hlen] at hof
  rw [prefixLen, hof, List.map_map]
  exact List.map_id'' (fun x => UInt8.ofNat_toNat) _

/-- The length is read off the first four bytes. With fewer there is no length yet, hence the
hypothesis. -/
theorem prefixLen_append {bs : List UInt8} (h : 4 ≤ bs.length) (more : List UInt8) :
    prefixLen (bs ++ more) = prefixLen bs := by
  rw [prefixLen, List.take_append_of_le_length h]
  rfl

/-- What a whole frame at the front says about the bytes. -/
theorem next_frame_inv {room : Int} {bs f rest : List UInt8} (h : next room bs = .frame f rest) :
    4 + prefixLen bs ≤ bs.length ∧ (prefixLen bs : Int) ≤ room
      ∧ (bs.drop 4).take (prefixLen bs) = f
      ∧ bs.drop (4 + prefixLen bs) = rest := by
  unfold next at h
  split at h
  · cases h
  split at h
  · cases h
  split at h
  · cases h
  next hroom hwhole =>
  injection h with hf hrest
  exact ⟨Nat.not_lt.mp hwhole, Int.not_lt.mp hroom, hf, hrest⟩

/-- A frame is found too long only once its length is there, and the length is what is told. -/
theorem next_over_inv {room : Int} {bs : List UInt8} {n : Nat} (h : next room bs = .overlong n) :
    4 ≤ bs.length ∧ room < prefixLen bs ∧ prefixLen bs = n := by
  unfold next at h
  split at h
  · cases h
  split at h
  · next hshort hroom =>
    injection h with hn
    exact ⟨Nat.not_lt.mp hshort, hroom, hn⟩
  split at h
  · cases h
  · cases h

/-- A frame is as long as its prefix says. -/
theorem next_frame_length {room : Int} {bs f rest : List UInt8}
    (h : next room bs = .frame f rest) :
    f.length = prefixLen bs := by
  obtain ⟨hwhole, -, hf, -⟩ := next_frame_inv h
  rw [← hf, List.length_take, List.length_drop]
  omega

/-- A frame is what its bytes say, within the limit. -/
theorem next_frame {room : Int} {bs f rest : List UInt8} (h : next room bs = .frame f rest) :
    bs = wire f ++ rest ∧ (f.length : Int) ≤ room := by
  have hlen := next_frame_length h
  obtain ⟨hwhole, hroom, hf, hrest⟩ := next_frame_inv h
  constructor
  · rw [wire, hlen, prefix_bytes (by omega), ← hf, ← hrest, List.append_assoc, ← List.drop_drop,
      List.take_append_drop, List.take_append_drop]
  · rw [hlen]
    exact hroom

/-- A frame that is complete is the next one however much arrives after it. -/
theorem next_append_frame {room : Int} {bs f rest : List UInt8} (h : next room bs = .frame f rest)
    (more : List UInt8) :
    next room (bs ++ more) = .frame f (rest ++ more) := by
  obtain ⟨hwhole, hroom, hf, hrest⟩ := next_frame_inv h
  have happ : prefixLen (bs ++ more) = prefixLen bs := prefixLen_append (by omega) more
  have hlen : bs.length ≤ (bs ++ more).length := by
    rw [List.length_append]
    exact Nat.le_add_right _ _
  rw [next, happ, if_neg (by omega), if_neg (Int.not_lt.mpr hroom), if_neg (by omega),
    ← hf, ← hrest, List.drop_append_of_le_length (by omega),
    List.drop_append_of_le_length (by omega),
    List.take_append_of_le_length (by rw [List.length_drop]; omega)]

/-- So does a length that is refused. -/
theorem next_append_over {room : Int} {bs : List UInt8} {n : Nat} (h : next room bs = .overlong n)
    (more : List UInt8) :
    next room (bs ++ more) = .overlong n := by
  obtain ⟨hlong, hroom, hn⟩ := next_over_inv h
  have happ : prefixLen (bs ++ more) = prefixLen bs := prefixLen_append hlong more
  rw [next, happ, if_neg (by rw [List.length_append]; omega), if_pos hroom, hn]

/-- A receiver with all the room of its limit taken has a whole frame, or a length to refuse. -/
theorem next_ne_wait {room : Int} {bs : List UInt8} (h : 4 ≤ bs.length)
    (hroom : room + 4 ≤ bs.length) :
    next room bs ≠ .wait := by
  unfold next
  rw [if_neg (Nat.not_lt.mpr h)]
  split
  · exact fun heq => (nomatch heq)
  · rw [if_neg (by omega)]
    exact fun heq => (nomatch heq)

/-- A frame takes bytes away. The recursion of `deliver` goes down along this. -/
theorem next_rest_length {room : Int} {bs f rest : List UInt8}
    (h : next room bs = .frame f rest) :
    rest.length < bs.length := by
  obtain ⟨hbs, -⟩ := next_frame h
  have hlen := congrArg List.length hbs
  have hprefix : ∀ n, (beBytes 4 n).length = 4 := fun _ => rfl
  rw [List.length_append, wire, List.length_append, List.length_map, hprefix] at hlen
  omega

/-! ### The frames of a stream -/

/-- What a receiver does with the front of a stream. -/
inductive Event
  | frame (f : List UInt8)
  /-- It refuses a length. -/
  | overlong (n : Nat)
  deriving Repr, DecidableEq

/-- The bytes of what a receiver took off. -/
def wires (es : List Event) : List UInt8 :=
  es.flatMap fun
    | .frame f => wire f
    | .overlong _ => []

/-- The frames of a stream under one limit after the other, up to the first length above its
limit, and what is left. -/
def parse : List Int → List UInt8 → List Event × List UInt8
  | [], bs => ([], bs)
  | room :: rooms, bs =>
    match next room bs with
    | .wait => ([], bs)
    | .overlong n => ([.overlong n], bs)
    | .frame f rest => (.frame f :: (parse rooms rest).1, (parse rooms rest).2)

/-- The bytes that a receiver took off the front are those of the frames it read, in order. -/
theorem parse_wires (rooms : List Int) (bs : List UInt8) :
    bs = wires (parse rooms bs).1 ++ (parse rooms bs).2 := by
  induction rooms generalizing bs with
  | nil => rfl
  | cons room rooms ih =>
    unfold parse
    cases h : next room bs with
    | wait => rfl
    | overlong n => rfl
    | frame f rest =>
      show bs = wire f ++ wires (parse rooms rest).1 ++ (parse rooms rest).2
      rw [List.append_assoc, ← ih rest]
      exact (next_frame h).1

/-- Reading goes on with what is left, after frames only. `hlen`: each limit so far brought an
event, so no reading stopped to wait. `hopen`: none of them was a length above its limit, since
nothing is read after that. -/
theorem parse_concat {rooms : List Int} {bs rest : List UInt8} {es : List Event}
    (h : parse rooms bs = (es, rest)) (hlen : es.length = rooms.length)
    (hopen : ∀ n, .overlong n ∉ es) (room : Int) :
    parse (rooms ++ [room]) bs = (es ++ (parse [room] rest).1, (parse [room] rest).2) := by
  induction rooms generalizing bs es with
  | nil =>
    obtain ⟨rfl, rfl⟩ := Prod.mk.inj h
    rfl
  | cons r rooms ih =>
    rw [parse] at h
    rw [List.cons_append, parse]
    cases hnext : next r bs with
    | wait =>
      rw [hnext] at h
      obtain ⟨rfl, -⟩ := Prod.mk.inj h
      exact absurd hlen.symm (Nat.succ_ne_zero _)
    | overlong n =>
      rw [hnext] at h
      obtain ⟨rfl, -⟩ := Prod.mk.inj h
      exact absurd List.mem_cons_self (hopen n)
    | frame f left =>
      rw [hnext] at h
      obtain ⟨rfl, hrest⟩ := Prod.mk.inj h
      have hleft : parse rooms left = ((parse rooms left).1, rest) := Prod.ext rfl hrest
      have hstep := ih hleft (Nat.succ.inj hlen)
        fun n hn => hopen n (List.mem_cons_of_mem _ hn)
      simp only [hstep]
      rfl

/-- The frames of a stream for a receiver with a state: `room` is its limit, and it is done when
`act` has no state for it. -/
def deliver {σ : Type} (room : σ → Int) (act : σ → List UInt8 → Option σ) (s : σ)
    (bs : List UInt8) : List Event :=
  match _hnext : next (room s) bs with
  | .wait => []
  | .overlong n => [.overlong n]
  | .frame f rest =>
    .frame f :: match act s f with
      | none => []
      | some s' => deliver room act s' rest
termination_by bs.length
decreasing_by exact next_rest_length _hnext

variable {σ : Type} {room : σ → Int} {act : σ → List UInt8 → Option σ} {s : σ} {bs : List UInt8}

/-- Nothing is delivered while a frame is incomplete. -/
theorem deliver_wait (h : next (room s) bs = .wait) : deliver room act s bs = [] := by
  rw [deliver.eq_def]
  split
  · rfl
  · next heq => cases h.symm.trans heq
  · next heq => cases h.symm.trans heq

/-- A frame that is too long ends the stream, whatever follows it. -/
theorem deliver_over {n : Nat} (h : next (room s) bs = .overlong n) :
    deliver room act s bs = [.overlong n] := by
  rw [deliver.eq_def]
  split
  · next heq => cases h.symm.trans heq
  · next heq =>
    cases h.symm.trans heq
    rfl
  · next heq => cases h.symm.trans heq

/-- A frame is delivered, and what it does to the state decides how much room the next one has. -/
theorem deliver_frame {f rest : List UInt8} (h : next (room s) bs = .frame f rest) :
    deliver room act s bs = .frame f :: (act s f).elim [] (deliver room act · rest) := by
  rw [deliver.eq_def]
  split
  · next heq => cases h.symm.trans heq
  · next heq => cases h.symm.trans heq
  · next heq =>
    cases h.symm.trans heq
    cases act s f <;> rfl

end Frames
