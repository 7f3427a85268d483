import IrcHub.Hub.State

/-!
# `IrcHub.Hub.Activity`: times that only rise

The times of `activity.rs`: when a user was last seen, a usermask last matched, and a ban last
used. They are merged by maximum, outside last-writer-wins: a rise is no config update, needs no
stamp of its own, and two hubs that saw different things agree after they have told each other.

* `Slot`: which record's time is meant, by its place in its table
* `raise`: raise one time. A time too far ahead of the clock is ignored, as a stamp would be

The lines of users and usermasks carry their time along with the record. For a record that loses
by its stamp the time is merged all the same.
-/

set_option autoImplicit false

namespace IrcHub.Hub

/-- Which record's activity time is meant. -/
inductive Slot
  | user (i : Nat)
  | mask (i : Nat)
  | ban (i : Nat)
  deriving Repr, DecidableEq

/-- Raise one activity time. A time too far ahead of the clock is ignored. -/
def raise (clk : Clock) (s : HubState) (slot : Slot) (ts : Int) : HubState :=
  if ts > clk.now + activityMaxFuture then s
  else
    match slot with
    | .user i =>
      { s with
        userRecords := s.userRecords.modify i fun u => { u with lastSeen := max u.lastSeen ts } }
    | .mask i =>
      { s with
        maskRecords := s.maskRecords.modify i fun m => { m with lastUsed := max m.lastUsed ts } }
    | .ban i =>
      { s with
        globalEntries :=
          s.globalEntries.modify i fun e => { e with lastUsed := max e.lastUsed ts } }

end IrcHub.Hub
