import IrcHub.Hub.Pump
import Mathlib.Logic.Relation

/-!
# `IrcHub.Proofs.Pump`: framing does not depend on how the reads cut the stream

Whatever a turn of the main loop does to a connection is a sequence of four moves (`Moves`): bytes
are read, a frame is handed on, a length is refused, the connection closes. Each move keeps three
things:

* `SoundBuffer`: the buffer is in order, and no read found one full of nothing
* `Reading`: the bytes that were taken off, those in the buffer and those yet to come are the
  stream
* `Ahead`: what the pump still has to do with the bytes is what it would do with the whole stream
  at once

So every run of turns hands on the frames of the stream in order, each of them once
(`framing_of_chunks`), however the reads cut it and however the budget of the pump cuts its calls.

The handlers are parameters: what they do with a frame may change the session and the size of the
buffer, close the connection, or change the rest of the hub. `Reading` holds whatever they do;
`Ahead` is about runs in which nothing else happens to the connection (`Own`).
-/

set_option autoImplicit false

namespace IrcHub.Proofs

open IrcHub.Hub IrcHub.Hub.Conn IrcHub.Hub.Reader Frames

variable {ω : Type}

/-! ### The buffer -/

/-- A buffer as the main loop leaves it: there is room for a length, and what is read lies in the
buffer. -/
structure BufferOk (c : Conn) : Prop where
  fd : 0 < c.fd
  cap : 4 ≤ c.recvCap
  off : c.recvOff ≤ c.recvBuf.length
  len : c.recvBuf.length ≤ c.recvCap

/-- What is unread is what is in the buffer past the offset. -/
theorem unread_length (c : Conn) : c.unread.length = c.recvBuf.length - c.recvOff :=
  List.length_drop

/-- The buffer holds something to handle if and only if its front is more than a part of a
frame. -/
theorem hasBufferedFrame_iff {c : Conn} (hfd : 0 < c.fd) : c.hasBufferedFrame = true
    ↔ next c.room c.unread ≠ .wait := by
  unfold hasBufferedFrame next
  have hopen : decide (c.fd ≤ 0) = false := decide_eq_false (by omega)
  simp only [hopen, Bool.false_or, decide_eq_true_eq]
  by_cases hshort : c.unread.length < 4
  · simp [hshort]
  by_cases hover : c.room < prefixLen c.unread
  · simp [hshort, hover]
  by_cases hwhole : c.unread.length < 4 + prefixLen c.unread
  · simp [hshort, hover, hwhole]
  · simp [hshort, hover, hwhole, Nat.not_lt.mp hwhole]

/-- Moving the buffer down reads nothing. -/
theorem unread_compactRecv (c : Conn) : c.compactRecv.unread = c.unread := by
  unfold compactRecv
  split
  · rfl
  · rfl

/-- It leaves the buffer sound. -/
theorem BufferOk.compactRecv {c : Conn} (h : BufferOk c) : BufferOk c.compactRecv := by
  obtain ⟨hfd, hcap, hoff, hlen⟩ := h
  unfold Conn.compactRecv
  split
  · refine ⟨hfd, hcap, Nat.zero_le _, ?_⟩
    show (c.recvBuf.drop c.recvOff).length ≤ c.recvCap
    rw [List.length_drop]
    omega
  · exact ⟨hfd, hcap, hoff, hlen⟩

/-- It leaves the connection, its session and its room. -/
theorem compactRecv_same (c : Conn) :
    c.compactRecv.fd = c.fd ∧ c.compactRecv.session = c.session
      ∧ c.compactRecv.recvCap = c.recvCap := by
  unfold compactRecv
  split <;> exact ⟨rfl, rfl, rfl⟩

/-- A buffer without room, once it is compacted, has something to handle: a frame that fits is
whole, and one that does not is refused. So a read never finds a full buffer. -/
theorem full_hasBufferedFrame {c : Conn} (h : BufferOk c)
    (hfull : c.compactRecv.recvCap - c.compactRecv.recvBuf.length = 0) :
    c.compactRecv.hasBufferedFrame = true := by
  have hok := h.compactRecv
  have hoff : c.compactRecv.recvOff = 0 := by
    obtain ⟨hfd, hcap, hoff, hlen⟩ := h
    unfold compactRecv at hfull ⊢
    split
    · rfl
    · next hnot =>
      rw [if_neg hnot] at hfull
      rw [Bool.and_eq_true, decide_eq_true_eq, decide_eq_true_eq] at hnot
      show c.recvOff = 0
      omega
  have hlen : c.compactRecv.unread.length = c.compactRecv.recvCap := by
    have := hok.len
    rw [unread_length, hoff]
    omega
  refine (hasBufferedFrame_iff hok.fd).mpr (next_ne_wait ?_ ?_)
  · rw [hlen]
    exact hok.cap
  · rw [hlen, room]
    omega

/-- Past a frame, the rest is what is unread. -/
theorem unread_stepPast {c : Conn} {f rest : List UInt8} (h : BufferOk c)
    (hnext : next c.room c.unread = .frame f rest) :
    (c.stepPast f.length).unread = rest ∧ BufferOk (c.stepPast f.length) := by
  obtain ⟨hfd, hcap, hoff, hlen⟩ := h
  obtain ⟨hle, -, -, hrest⟩ := next_frame_inv hnext
  rw [unread_length] at hle
  have hdrop : rest = c.recvBuf.drop (c.recvOff + (4 + f.length)) := by
    rw [next_frame_length hnext, ← hrest, unread, List.drop_drop]
  unfold stepPast
  simp only []
  split
  · next hend =>
    rw [hdrop, List.drop_eq_nil_of_le hend]
    exact ⟨rfl, hfd, hcap, Nat.zero_le _, Nat.zero_le _⟩
  · next hmore =>
    rw [hdrop]
    exact ⟨rfl, hfd, hcap, Nat.le_of_lt (Nat.not_le.mp hmore), hlen⟩

/-- What a frame settled does not depend on whether it was stepped past before or after. -/
theorem settled_stepPast (c : Conn) (s : Session) (promote : Bool) (n : Nat) :
    (c.settled s promote).stepPast n = (c.stepPast n).settled s promote := by
  unfold stepPast settled
  simp only []
  split <;> rfl

/-- A session that changes reads nothing. -/
@[simp] theorem unread_settled (c : Conn) (s : Session) (promote : Bool) :
    (c.settled s promote).unread = c.unread := rfl

/-- A connection that is promoted gets no less room. -/
theorem promoted_ge (typ : ClientType) (cap : Nat) : cap ≤ promoted typ cap := by
  unfold promoted
  split
  · omega
  · exact Nat.le_refl _

/-- So the buffer stays sound. -/
theorem BufferOk.settled {c : Conn} (h : BufferOk c) (s : Session) (promote : Bool) :
    BufferOk (c.settled s promote) := by
  obtain ⟨hfd, hcap, hoff, hlen⟩ := h
  have hgrow : c.recvCap ≤ (c.settled s promote).recvCap := by
    unfold Conn.settled
    simp only []
    split
    · exact promoted_ge s.typ c.recvCap
    · exact Nat.le_refl _
  exact ⟨hfd, Nat.le_trans hcap hgrow, hoff, Nat.le_trans hlen hgrow⟩

/-! ### The pump by what is unread -/

/-- Nothing happens while a frame is incomplete. -/
theorem pump_wait {h : Handlers ω} {r : Reader ω} {c : Conn} (n : Nat) (hconn : r.conn = some c)
    (hnext : next c.room c.unread = .wait) : pump h n r = r := by
  cases n with
  | zero => rfl
  | succ n =>
    unfold pump
    rw [hconn]
    simp only []
    rw [← unread_length]
    unfold next at hnext
    split
    · rfl
    next hlong =>
    have hshort : ¬c.unread.length < 4 :=
      fun hlt => hlong (by rw [decide_eq_true hlt, Bool.or_true])
    rw [if_neg hshort] at hnext
    split
    · next hover =>
      rw [if_pos hover] at hnext
      cases hnext
    next hroom =>
    rw [if_neg hroom] at hnext
    split
    · rfl
    next hwhole =>
    rw [if_neg hwhole] at hnext
    cases hnext

/-- A frame that is too long ends the connection. -/
theorem pump_over {h : Handlers ω} {r : Reader ω} {c : Conn} {m : Nat} (n : Nat)
    (hok : BufferOk c) (hconn : r.conn = some c) (hnext : next c.room c.unread = .overlong m) :
    pump h (n + 1) r = (r.note c (.overlong m)).disconnect := by
  obtain ⟨hlong, hover, hm⟩ := next_over_inv hnext
  have hopen : decide (c.fd < 0) = false := decide_eq_false (by have := hok.fd; omega)
  rw [pump, hconn]
  simp only [← unread_length, hopen, Bool.false_or]
  rw [decide_eq_false (Nat.not_lt.mpr hlong), if_neg Bool.false_ne_true, if_pos hover, hm]

/-- A frame is dispatched, and the pump goes on behind it. -/
theorem pump_frame {h : Handlers ω} {r : Reader ω} {c : Conn} {f rest : List UInt8} (n : Nat)
    (hok : BufferOk c) (hconn : r.conn = some c) (hnext : next c.room c.unread = .frame f rest) :
    pump h (n + 1) r = pump h n
      ((r.note c (.frame f)).after c f.length (h.dispatch r.world c.session f)) := by
  have hlen := next_frame_length hnext
  obtain ⟨hwhole, hroom, hf, -⟩ := next_frame_inv hnext
  have hopen : decide (c.fd < 0) = false := decide_eq_false (by have := hok.fd; omega)
  have hframe : (c.recvBuf.drop (c.recvOff + 4)).take (prefixLen c.unread) = f := by
    rw [← hf, unread, List.drop_drop]
  rw [pump, hconn]
  simp only [← unread_length, hopen, Bool.false_or]
  rw [decide_eq_false (by omega), if_neg Bool.false_ne_true, if_neg (Int.not_lt.mpr hroom),
    if_neg (by omega), hframe,
    ← hlen]

/-! ### Moves -/

/-- What happens to a connection, in the smallest steps that leave a buffer in order. -/
inductive Moves (h : Handlers ω) : Reader ω → Reader ω → Prop
  /-- Bytes move from the stream into the buffer, or within the buffer. -/
  | refill {r : Reader ω} {c c' : Conn} {incoming : List UInt8} (hconn : r.conn = some c)
      (hok : BufferOk c') (hsession : c'.session = c.session) (hcap : c'.recvCap = c.recvCap)
      (hbytes : c'.unread ++ incoming = c.unread ++ r.incoming) :
      Moves h r { r with conn := some c', incoming := incoming }
  | close (r : Reader ω) (incoming : List UInt8) :
      Moves h r { r with conn := none, incoming := incoming }
  | frame {r : Reader ω} {c : Conn} {f rest : List UInt8} (hconn : r.conn = some c)
      (hnext : next c.room c.unread = .frame f rest) :
      Moves h r ((r.note c (.frame f)).after c f.length (h.dispatch r.world c.session f))
  | overlong {r : Reader ω} {c : Conn} {n : Nat} (hconn : r.conn = some c)
      (hnext : next c.room c.unread = .overlong n) :
      Moves h r (r.note c (.overlong n)).disconnect

/-- Buffers are in order, and no read found one full of nothing. -/
structure SoundBuffer (r : Reader ω) : Prop where
  ok : ∀ c, r.conn = some c → BufferOk c
  calm : r.overflowed = false

/-- Each move keeps the buffer sound. -/
theorem SoundBuffer.moves {h : Handlers ω} {r r' : Reader ω} (hr : SoundBuffer r)
    (hmove : Moves h r r') : SoundBuffer r' := by
  obtain ⟨hok, hcalm⟩ := hr
  cases hmove with
  | refill hconn hok' hsession hcap hbytes =>
    refine ⟨fun d hd => ?_, hcalm⟩
    obtain rfl := Option.some.inj hd
    exact hok'
  | close incoming => exact ⟨fun d hd => (nomatch hd), hcalm⟩
  | @frame c f rest hconn hnext =>
    unfold Reader.after
    split
    · exact ⟨fun d hd => (nomatch hd), hcalm⟩
    · next w s promote _ =>
      refine ⟨fun d hd => ?_, hcalm⟩
      obtain rfl := Option.some.inj hd
      rw [settled_stepPast]
      exact (unread_stepPast (hok c hconn) hnext).2.settled s promote
  | overlong hconn hnext => exact ⟨fun d hd => (nomatch hd), hcalm⟩

/-- The pump is a run of moves. By induction on its budget. -/
theorem moves_pump (h : Handlers ω) (n : Nat) {r : Reader ω} (hr : SoundBuffer r) :
    Relation.ReflTransGen (Moves h) r (pump h n r) := by
  induction n generalizing r with
  | zero => exact .refl
  | succ n ih =>
    cases hconn : r.conn with
    | none =>
      rw [pump, hconn]
    | some c =>
      have hok := hr.ok c hconn
      cases hnext : next c.room c.unread with
      | wait => rw [pump_wait (n + 1) hconn hnext]
      | overlong m =>
        rw [pump_over n hok hconn hnext]
        exact .single (.overlong hconn hnext)
      | frame f rest =>
        have hmove : Moves h r _ := .frame hconn hnext
        rw [pump_frame n hok hconn hnext]
        exact .head hmove (ih (hr.moves hmove))

/-- Bytes that were read go to the end of the buffer, which was compacted first. -/
theorem moves_received {h : Handlers ω} {r : Reader ω} {c : Conn} {n space : Nat}
    (hr : SoundBuffer r) (hconn : r.conn = some c)
    (hspace : space = c.compactRecv.recvCap - c.compactRecv.recvBuf.length) :
    Moves h r (r.received c.compactRecv (r.chunk n space)) := by
  obtain ⟨hfd, hcap, hoff, hlen⟩ := (hr.ok c hconn).compactRecv
  obtain ⟨-, hsession, hrecv⟩ := compactRecv_same c
  have hfits : (r.chunk n space).length ≤ space := by
    unfold chunk
    rw [List.length_take]
    omega
  refine .refill hconn ⟨hfd, hcap, ?_, ?_⟩ hsession hrecv ?_
  · show c.compactRecv.recvOff ≤ (c.compactRecv.recvBuf ++ _).length
    rw [List.length_append]
    omega
  · show (c.compactRecv.recvBuf ++ _).length ≤ c.compactRecv.recvCap
    rw [List.length_append]
    omega
  · show (c.compactRecv.recvBuf ++ r.chunk n space).drop c.compactRecv.recvOff ++ _ = _
    have hprefix : r.chunk n space ++ r.incoming.drop (r.chunk n space).length = r.incoming :=
      List.prefix_iff_eq_append.mp (List.take_prefix _ _)
    rw [List.drop_append_of_le_length hoff, List.append_assoc, hprefix]
    exact congrArg (· ++ r.incoming) (unread_compactRecv c)

/-- Moving the buffer down is a move. -/
theorem moves_compactRecv {h : Handlers ω} {r : Reader ω} {c : Conn} (hr : SoundBuffer r)
    (hconn : r.conn = some c) :
    Moves h r { r with conn := some c.compactRecv } := by
  obtain ⟨-, hsession, hcap⟩ := compactRecv_same c
  exact .refill hconn (hr.ok c hconn).compactRecv hsession hcap
    (congrArg (· ++ r.incoming) (unread_compactRecv c))

/-- A move, and then what the pump does. -/
theorem moves_handle {h : Handlers ω} {r r' : Reader ω} (hr : SoundBuffer r)
    (hmove : Moves h r r') :
    Relation.ReflTransGen (Moves h) r (handleClientData h r') :=
  .head hmove (moves_pump h packetsPerCall (hr.moves hmove))

/-- Reading is a run of moves: a full buffer always has something to handle. -/
theorem moves_readOne (h : Handlers ω) (res : ReadResult) {r : Reader ω} (hr : SoundBuffer r) :
    Relation.ReflTransGen (Moves h) r (readOne h res r) := by
  unfold readOne
  cases hconn : r.conn with
  | none => exact .refl
  | some c =>
    have hok := hr.ok c hconn
    have hclose : Moves h r r.disconnect := .close r r.incoming
    simp only []
    split
    · exact .refl
    split
    · unfold readConsole
      cases res with
      | got n =>
        have hread := moves_received (h := h) (n := n) hr hconn rfl
        simp only []
        split
        · exact .head hread (.single (.close _ _))
        · exact moves_handle hr hread
      | wouldBlock => exact moves_handle hr (moves_compactRecv hr hconn)
      | failed => exact .single hclose
    split
    · cases res with
      | got n =>
        simp only []
        split
        · exact .single hclose
        · exact moves_handle hr (moves_received hr hconn rfl)
      | wouldBlock => exact .single hclose
      | failed => exact .single hclose
    · next hfull =>
      rw [full_hasBufferedFrame hok (by omega), Bool.not_true, if_neg Bool.false_ne_true]
      exact moves_handle hr (moves_compactRecv hr hconn)

/-! ### What was read is the stream -/

/-- What was taken off, what is in the buffer and what is yet to come are the stream. -/
structure Reading (stream : List UInt8) (r : Reader ω) : Prop where
  parsed : (parse r.rooms stream).1 = r.trace
  count : r.trace.length = r.rooms.length
  rest : ∀ c, r.conn = some c → (parse r.rooms stream).2 = c.unread ++ r.incoming
    ∧ ∀ n, .overlong n ∉ r.trace

/-- An incomplete frame leaves the bytes. -/
theorem parse_one_wait {room : Int} {bs : List UInt8} (h : next room bs = .wait) :
    parse [room] bs = ([], bs) := by
  rw [parse, h]

/-- A frame leaves the bytes behind it. -/
theorem parse_one_frame {room : Int} {bs f rest : List UInt8} (h : next room bs = .frame f rest) :
    parse [room] bs = ([.frame f], rest) := by
  rw [parse, h]
  rfl

/-- One that is too long leaves them too, and is told. -/
theorem parse_one_over {room : Int} {bs : List UInt8} {n : Nat} (h : next room bs = .overlong n) :
    parse [room] bs = ([.overlong n], bs) := by
  rw [parse, h]

/-- Each move keeps what was read a parse of the stream so far. The buffer must be sound, or bytes
would be read twice. -/
theorem Reading.moves {h : Handlers ω} {stream : List UInt8} {r r' : Reader ω}
    (hr : Reading stream r) (hok : SoundBuffer r) (hmove : Moves h r r') : Reading stream r' := by
  obtain ⟨hparsed, hcount, hrest⟩ := hr
  cases hmove with
  | refill hconn hok' hsession hcap hbytes =>
    refine ⟨hparsed, hcount, fun d hd => ?_⟩
    obtain rfl := Option.some.inj hd
    rw [hbytes]
    exact hrest _ hconn
  | close incoming => exact ⟨hparsed, hcount, fun d hd => (nomatch hd)⟩
  | @frame c f rest hconn hnext =>
    obtain ⟨hleft, hopen⟩ := hrest c hconn
    have hstep := parse_concat (Prod.ext hparsed hleft) hcount hopen c.room
    rw [parse_one_frame (next_append_frame hnext r.incoming)] at hstep
    have hcount' : (r.trace ++ [Event.frame f]).length = (r.rooms ++ [c.room]).length := by
      rw [List.length_append, List.length_append, hcount]
      rfl
    unfold Reader.after
    split
    · exact ⟨congrArg Prod.fst hstep, hcount', fun d hd => (nomatch hd)⟩
    · refine ⟨congrArg Prod.fst hstep, hcount', fun d hd => ?_⟩
      obtain rfl := Option.some.inj hd
      rw [settled_stepPast, unread_settled, (unread_stepPast (hok.ok c hconn) hnext).1]
      refine ⟨congrArg Prod.snd hstep, fun n hn => ?_⟩
      rcases List.mem_append.mp hn with hn | hn
      · exact hopen n hn
      · exact (nomatch List.mem_singleton.mp hn)
  | @overlong c n hconn hnext =>
    obtain ⟨hleft, hopen⟩ := hrest c hconn
    have hstep := parse_concat (Prod.ext hparsed hleft) hcount hopen c.room
    rw [parse_one_over (next_append_over hnext r.incoming)] at hstep
    refine ⟨congrArg Prod.fst hstep, ?_, fun d hd => (nomatch hd)⟩
    show (r.trace ++ [Event.overlong n]).length = (r.rooms ++ [c.room]).length
    rw [List.length_append, List.length_append, hcount]
    rfl

/-! ### Cuts do not matter -/

/-- A connection as a receiver of frames: the rest of the hub, its session and the size of its
buffer. -/
structure Receiver (ω : Type) where
  world : ω
  session : Session
  cap : Nat

def Receiver.room (s : Receiver ω) : Int := (s.cap : Int) - 4

/-- What the handlers make of a frame: the connection goes, or stays with another session and
perhaps larger buffers. -/
def Receiver.act (h : Handlers ω) (s : Receiver ω) (f : List UInt8) : Option (Receiver ω) :=
  match h.dispatch s.world s.session f with
  | (_, .gone) => none
  | (w, .stays t promote) => some ⟨w, t, if promote then promoted t.typ s.cap else s.cap⟩

/-- The connection of a reader as a receiver. -/
def receiver (r : Reader ω) (c : Conn) : Receiver ω := ⟨r.world, c.session, c.recvCap⟩

/-- What a connection does with a stream that arrives at once. -/
def atOnce (h : Handlers ω) (s : Receiver ω) (stream : List UInt8) : List Event :=
  deliver Receiver.room (Receiver.act h) s stream

/-- What was done so far is the first part of what is done in all. -/
structure Ahead (h : Handlers ω) (all : List Event) (r : Reader ω) : Prop where
  done : r.trace <+: all
  todo : ∀ c, r.conn = some c → all = r.trace ++ atOnce h (receiver r c) (c.unread ++ r.incoming)

/-- Each move keeps what was told a start of what the whole stream tells. -/
theorem Ahead.moves {h : Handlers ω} {all : List Event} {r r' : Reader ω} (hr : Ahead h all r)
    (hok : SoundBuffer r) (hmove : Moves h r r') : Ahead h all r' := by
  obtain ⟨hdone, htodo⟩ := hr
  cases hmove with
  | @refill c c' incoming hconn hok' hsession hcap hbytes =>
    refine ⟨hdone, fun d hd => ?_⟩
    obtain rfl := Option.some.inj hd
    have hsame : receiver { r with conn := some c', incoming := incoming } c' = receiver r c := by
      unfold receiver
      rw [hsession, hcap]
    rw [hsame, hbytes]
    exact htodo c hconn
  | close incoming => exact ⟨hdone, fun d hd => (nomatch hd)⟩
  | @frame c f rest hconn hnext =>
    have hall := htodo c hconn
    have hnext' : next (receiver r c).room (c.unread ++ r.incoming) = .frame f
      (rest ++ r.incoming) :=
      next_append_frame hnext r.incoming
    rw [atOnce, deliver_frame hnext'] at hall
    have hdone' : r.trace ++ [Event.frame f] <+: all :=
      ⟨_, by rw [List.append_assoc]; exact hall.symm⟩
    unfold Reader.after
    split
    · exact ⟨hdone', fun d hd => (nomatch hd)⟩
    · next w t promote hfate =>
      refine ⟨hdone', fun d hd => ?_⟩
      obtain rfl := Option.some.inj hd
      have hact : (receiver r c).act h f = some ⟨w, t, (c.settled t promote).recvCap⟩ := by
        unfold Receiver.act receiver
        rw [hfate]
        rfl
      rw [hact] at hall
      rw [hall, settled_stepPast, unread_settled, (unread_stepPast (hok.ok c hconn) hnext).1]
      have hcap : (c.stepPast f.length).recvCap = c.recvCap := by
        unfold stepPast
        simp only []
        split <;> rfl
      unfold receiver Conn.settled
      rw [hcap]
      simp [note, atOnce]
  | @overlong c n hconn hnext =>
    have hall := htodo c hconn
    have hnext' : next (receiver r c).room (c.unread ++ r.incoming) = .overlong n :=
      next_append_over hnext r.incoming
    rw [atOnce, deliver_over hnext'] at hall
    exact ⟨⟨[], (List.append_nil _).trans hall.symm⟩, fun d hd => (nomatch hd)⟩

/-! ### Runs -/

/-- Turns that are about the connection alone. -/
def Own : Turn ω → Prop
  | .elsewhere _ => False
  | _ => True

/-- A turn of the connection is a sequence of moves. -/
theorem moves_turn (h : Handlers ω) {t : Turn ω} (ht : Own t) {r : Reader ω}
    (hr : SoundBuffer r) :
    Relation.ReflTransGen (Moves h) r (turn h r t) := by
  cases t with
  | readable res => exact moves_readOne h res hr
  | leftover =>
    unfold turn
    simp only []
    split
    · exact moves_pump h packetsPerCall hr
    · exact .refl
  | elsewhere f => exact ht.elim

/-- What holds in order and is kept by every move is kept by a run of them. -/
theorem keeps_moves {h : Handlers ω} {P : Reader ω → Prop}
    (hstep : ∀ {r r'}, P r → SoundBuffer r → Moves h r r' → P r') {r r' : Reader ω} (hp : P r)
    (hr : SoundBuffer r) (hmoves : Relation.ReflTransGen (Moves h) r r') : P r'
    ∧ SoundBuffer r' := by
  induction hmoves with
  | refl => exact ⟨hp, hr⟩
  | tail _ hmove ih => exact ⟨hstep ih.1 ih.2 hmove, ih.2.moves hmove⟩

/-- What happens elsewhere reads nothing, though it may change how much room a frame has. -/
theorem keeps_elsewhere {stream : List UInt8} {r : Reader ω} (f : ω → Session → ω × Fate)
    (hp : Reading stream r) (hr : SoundBuffer r) : Reading stream (r.elsewhere f)
    ∧ SoundBuffer (r.elsewhere f) := by
  unfold Reader.elsewhere
  cases hconn : r.conn with
  | none => exact ⟨hp, hr⟩
  | some c =>
    obtain ⟨hparsed, hcount, hrest⟩ := hp
    simp only []
    split
    · exact ⟨⟨hparsed, hcount, fun d hd => (nomatch hd)⟩, fun d hd => (nomatch hd), hr.calm⟩
    · next w s promote _ =>
      refine ⟨⟨hparsed, hcount, fun d hd => ?_⟩, fun d hd => ?_, hr.calm⟩
      · obtain rfl := Option.some.inj hd
        exact hrest c hconn
      · obtain rfl := Option.some.inj hd
        exact (hr.ok c hconn).settled s promote

/-- A whole run keeps both, by induction on its turns. -/
theorem keeps_run (h : Handlers ω) {stream : List UInt8} (turns : List (Turn ω)) {r : Reader ω}
    (hp : Reading stream r) (hr : SoundBuffer r) : Reading stream (run h r turns)
    ∧ SoundBuffer (run h r turns) := by
  induction turns generalizing r with
  | nil => exact ⟨hp, hr⟩
  | cons t turns ih =>
    have hturn : Reading stream (turn h r t) ∧ SoundBuffer (turn h r t) := by
      cases t with
      | elsewhere f => exact keeps_elsewhere f hp hr
      | readable res =>
          exact keeps_moves Reading.moves hp hr (@moves_turn _ h (.readable res) trivial _ hr)
      | leftover => exact keeps_moves Reading.moves hp hr (@moves_turn _ h .leftover trivial _ hr)
    exact ih hturn.1 hturn.2

/-- While nothing happens elsewhere the run goes along what the stream tells, whatever pieces it
came in. -/
theorem ahead_run (h : Handlers ω) {all : List Event} (turns : List (Turn ω))
    (hown : ∀ t ∈ turns, Own t) {r : Reader ω} (hp : Ahead h all r) (hr : SoundBuffer r) :
    Ahead h all (run h r turns) := by
  induction turns generalizing r with
  | nil => exact hp
  | cons t turns ih =>
    have hturn := keeps_moves Ahead.moves hp hr (moves_turn h (hown t List.mem_cons_self) hr)
    exact ih (fun t' ht' => hown t' (List.mem_cons_of_mem t ht')) hturn.1 hturn.2

/-- What was done is never undone. -/
theorem trace_moves {h : Handlers ω} {r r' : Reader ω}
    (hmoves : Relation.ReflTransGen (Moves h) r r') :
    r.trace <+: r'.trace := by
  induction hmoves with
  | refl => exact List.prefix_rfl
  | tail _ hmove ih =>
    refine ih.trans ?_
    cases hmove with
    | refill => exact List.prefix_rfl
    | close => exact List.prefix_rfl
    | frame =>
      unfold Reader.after
      split <;> exact List.prefix_append _ _
    | overlong => exact List.prefix_append _ _

/-- The next call does something if and only if the buffer holds something to handle. So the test
the main loop sleeps by is right. -/
theorem handle_iff {h : Handlers ω} {r : Reader ω} {c : Conn} (hr : SoundBuffer r)
    (hconn : r.conn = some c) :
    c.hasBufferedFrame = true ↔ (handleClientData h r).trace ≠ r.trace := by
  have hok := hr.ok c hconn
  rw [hasBufferedFrame_iff hok.fd]
  constructor
  · intro hnext heq
    have hmore : ∀ e, (r.note c e).trace.length = r.trace.length + 1 :=
      fun e => List.length_append
    cases hfront : next c.room c.unread with
    | wait => exact hnext hfront
    | overlong m =>
      rw [handleClientData, pump_over 7 hok hconn hfront] at heq
      have hlong : (r.note c (.overlong m)).disconnect.trace.length = r.trace.length + 1 :=
        hmore _
      rw [heq] at hlong
      omega
    | frame f rest =>
      have hmove : Moves h r _ := .frame hconn hfront
      rw [handleClientData, pump_frame 7 hok hconn hfront] at heq
      have hlong := (trace_moves (moves_pump h 7 (hr.moves hmove))).length_le
      rw [heq] at hlong
      have hafter : ((r.note c (.frame f)).after c f.length
        (h.dispatch r.world c.session f)).trace.length
          = r.trace.length + 1 := by
        unfold Reader.after
        split <;> exact hmore _
      omega
  · intro hne hwait
    exact hne (congrArg Reader.trace (pump_wait packetsPerCall hconn hwait))

/-- What a run makes of a stream: the connection started as `(world, session, size)`. -/
structure Framed (h : Handlers ω) (world : ω) (session : Session) (size : Nat)
    (stream : List UInt8) (turns : List (Turn ω)) (r : Reader ω) : Prop where
  /-- What was handed on are the frames of the stream in order, up to a length above the limit of
  its time, and no byte between them is lost. -/
  frames : (parse r.rooms stream).1 = r.trace ∧ stream = wires r.trace ++ (parse r.rooms stream).2
  /-- The rest of the stream is what is unread and what has yet to come. -/
  rest : ∀ c, r.conn = some c → (parse r.rooms stream).2 = c.unread ++ r.incoming
  buffered : ∀ c, r.conn = some c →
    (c.hasBufferedFrame = true ↔ (handleClientData h r).trace ≠ r.trace)
  /-- Once all has come and nothing is left to handle, the stream has no more frames. -/
  complete : ∀ c, r.conn = some c → c.hasBufferedFrame = false → r.incoming = [] →
    parse (r.rooms ++ [c.room]) stream = (r.trace, c.unread)
  compacted : ∀ c, r.conn = some c → c.compactRecv.unread = c.unread
  noOverflow : r.overflowed = false
  /-- As long as nothing else changes the connection, it does what it would do with the stream at
  once. -/
  atOnce : (∀ t ∈ turns, Own t) → r.trace <+: atOnce h ⟨world, session, size⟩ stream
    ∧ ∀ c, r.conn = some c → c.hasBufferedFrame = false → r.incoming = [] →
      r.trace = atOnce h ⟨world, session, size⟩ stream

/-- Framing does not depend on how the reads cut the stream, nor on how the pump's budget cuts its
calls. There is no condition on the handlers or on the stream. -/
theorem framing_of_chunks (h : Handlers ω) (world : ω) {fd : Int} (session : Session) {size : Nat}
    (stream : List UInt8) (turns : List (Turn ω)) (hfd : 0 < fd) (hsize : 4 ≤ size) :
    Framed h world session size stream turns
      (run h (start world fd session size stream) turns) := by
  have horder : SoundBuffer (start world fd session size stream) := by
    refine ⟨fun c hc => ?_, rfl⟩
    obtain rfl := Option.some.inj hc
    exact ⟨hfd, hsize, Nat.le_refl 0, Nat.zero_le _⟩
  have hstart : Reading stream (start world fd session size stream) := by
    refine ⟨rfl, rfl, fun c hc => ⟨?_, fun n => List.not_mem_nil⟩⟩
    obtain rfl := Option.some.inj hc
    rfl
  have hahead : Ahead h (atOnce h ⟨world, session, size⟩ stream)
    (start world fd session size stream) := by
    refine ⟨List.nil_prefix, fun c hc => ?_⟩
    obtain rfl := Option.some.inj hc
    rfl
  obtain ⟨hread, hr⟩ := keeps_run h turns hstart horder
  generalize hrun : run h (start world fd session size stream) turns = r at hread hr
  have hwait : ∀ c, r.conn = some c → c.hasBufferedFrame = false →
    next c.room c.unread = .wait := by
    intro c hc hnone
    by_contra hnext
    exact absurd ((hasBufferedFrame_iff (hr.ok c hc).fd).mpr hnext)
      (by rw [hnone]; exact Bool.false_ne_true)
  refine ⟨⟨hread.parsed, ?_⟩, fun c hc => (hread.rest c hc).1, fun c hc => handle_iff hr hc, ?_,
    fun c _ => unread_compactRecv c, hr.calm, ?_⟩
  · have hwires := parse_wires r.rooms stream
    rw [hread.parsed] at hwires
    exact hwires
  · intro c hc hnone hcome
    obtain ⟨hrest, hopen⟩ := hread.rest c hc
    rw [hcome, List.append_nil] at hrest
    have hpair : parse r.rooms stream = (r.trace, c.unread) := Prod.ext hread.parsed hrest
    rw [parse_concat hpair hread.count hopen, parse_one_wait (hwait c hc hnone), List.append_nil]
  · intro hown
    have hrun' := ahead_run h turns hown hahead horder
    rw [hrun] at hrun'
    refine ⟨hrun'.done, fun c hc hnone hcome => ?_⟩
    have hall := hrun'.todo c hc
    have hnothing : IrcHub.Proofs.atOnce h (receiver r c) c.unread = [] :=
      deliver_wait (hwait c hc hnone)
    rw [hcome, List.append_nil, hnothing, List.append_nil] at hall
    exact hall.symm

/-- Handlers that let every frame pass, and promote the buffers of a connection at its first. -/
def passing : Handlers Unit where
  now _ := 0
  consoleFrame _ s _ := ((), .stays s false)
  unauthenticated _ s _ := ((), .stays { s with authenticated := true, typ := .hub } true)
  decrypt _ _ body _ := some body
  sendPong _ _ := ((), true)
  linkSeqRecv _ s _ := ((), .stays s false)
  adminCommand _ s _ _ := ((), .stays s false)
  retireAckApply _ _ _ := ()
  botCommand _ s _ _ := ((), .stays s false)
  peerFrame _ s _ _ := ((), .stays s false)

/-- Two pieces of a stream, cut within a frame: the frame is handed on once its end has come, and
not before. -/
theorem framing_passing :
    Framed passing () {} 4096 [0, 0, 0, 2, 7, 8, 0, 0, 0] [.readable (.got 5), .readable (.got 9)]
      (run passing (start () 3 {} 4096 [0, 0, 0, 2, 7, 8, 0, 0, 0])
        [.readable (.got 5), .readable (.got 9)])
      ∧ (run passing (start () 3 {} 4096 [0, 0, 0, 2, 7, 8, 0, 0, 0])
        [.readable (.got 5)]).trace = []
      ∧ (run passing (start () 3 {} 4096 [0, 0, 0, 2, 7, 8, 0, 0, 0])
        [.readable (.got 5), .readable (.got 9)]).trace = [.frame [7, 8]] :=
  ⟨framing_of_chunks passing () {} [0, 0, 0, 2, 7, 8, 0, 0, 0]
    [.readable (.got 5), .readable (.got 9)] (by decide) (by decide), by decide +kernel,
    by decide +kernel⟩

end IrcHub.Proofs
