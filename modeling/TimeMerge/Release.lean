import TimeMerge.Merger
import TimeMerge.Outlet

/-!
Releasing into an outlet.
-/
namespace TimeMerge

/-- Hands on everything that may go and counts it. A refused record is lost; what is behind it stays
where it is. -/
def Merger.release (k : Outlet ω α) (m : Merger α) (w : ω) : Except Fault Nat × (Merger α × ω) :=
  match _h : m.next with
  | none => (.ok 0, (m, w))
  | some (record, m') =>
    match k.emit record w with
    | (.error e, w) => (.error e, (m', w))
    | (.ok (), w) =>
      match release k m' w with
      | (.error e, s) => (.error e, s)
      | (.ok n, s) => (.ok (n + 1), s)
termination_by m.size
decreasing_by exact size_next _h

end TimeMerge
