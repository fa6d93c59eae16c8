import Udp2raw.Server.Changes

/-!
# Timestamps of the connections

The collector compares two timestamps of a connection with the clock and keeps a
cursor of its own. Outside the collector no handler moves the cursor, and no
handler writes a timestamp that is later than what its event read from the clock.
-/

namespace Udp2raw

/-- An event that reads the clock up to `b` and about which nothing else is known. -/
def Supply.upTo (b : UInt64) : Supply := ⟨b, fun _ => True, True⟩

namespace Server

open Program

/-- No timestamp of a connection is later than `b`. -/
def Stamped (b : UInt64) (s : Server) : Prop := ∀ i c, s.conns.get? i = some c → c.By b

/-- The collector's own state stays, and timestamps stay below `b`. -/
structure Calm (b : UInt64) (s t : Server) : Prop where
  clearCursor : t.clearCursor = s.clearCursor
  stamped : s.Stamped b → t.Stamped b

variable {b : UInt64} {s t : Server} {cfg : ServerCfg} {w : Supply}

/-- A change stamps no later than the clock. -/
theorem Changes.stamped (h : Changes cfg w s t) (hs : s.Stamped w.latest) : t.Stamped w.latest := by
  intro i d hd
  rcases h.conns i d hd with ⟨j, c, hc, hfollows⟩ | hnew
  · obtain ⟨hrecv, hstate⟩ := hs j c hc
    refine ⟨hfollows.hbRecvTime hrecv, ?_⟩
    rw [hfollows.stateTime]
    exact hstate
  · exact hnew.stamped

/-- A program that returned left the collector's state alone. -/
theorem Calm.of_alters {α : Type} {m : ServerM α} {Q : α → Server → Prop}
    (h : Alters cfg (.upTo b) s m Q) {a : α} {out : List Effect} (hok : m s = .ok (a, t, out)) :
    Calm b s t := by
  obtain ⟨hsteps, -⟩ := h.ok hok
  refine ⟨?_, ?_⟩
  · exact hsteps.invariant (I := fun u => u.clearCursor = s.clearCursor)
      (fun _ _ _ hstep hu => hstep.clearCursor.trans hu) rfl
  · exact fun hs => hsteps.invariant (I := Stamped b) (fun _ _ _ hstep => hstep.stamped) hs

end Server

end Udp2raw
