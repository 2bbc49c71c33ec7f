import TimeMerge.Json.Printer
import TimeMerge.Json.Reader
import TimeMerge.Text.Quoted

/-!
Reading JSON values of a kind that is expected. A value of another kind is refused in words that name
both, at its end, or at its opening bracket if it has one.
-/
namespace TimeMerge.Json

/-- A value as a refusal names it. -/
def kind : Json → String
  | .null => "null"
  | .bool b => s!"boolean `{b}`"
  | .number (.integer n) => s!"integer `{n}`"
  | .number (.float bits) => "floating point `" ++ String.ofList (Number.float bits).print ++ "`"
  | .string s => "string " ++ Text.quote s
  | .array _ => "sequence"
  | .object _ => "map"

def wrongKind (kind expected : String) : Reason :=
  .refused s!"invalid type: {kind}, expected {expected}"

/-- What is expected: its name, and what values of the kind stand for. -/
structure Expected (α : Type) where
  name : String
  accept? : Json → Option α
  /-- Values of the right kind that are not in range. -/
  outOfRange : Json → Bool := fun _ => false

def Expected.refusal (e : Expected α) (j : Json) : Reason :=
  if e.outOfRange j then .refused s!"invalid value: {j.kind}, expected {e.name}"
  else wrongKind j.kind e.name

def Expected.text : Expected String where
  name := "a string"
  accept?
    | .string s => some s
    | _ => none

def Expected.boolean : Expected Bool where
  name := "a boolean"
  accept?
    | .bool b => some b
    | _ => none

/-- An unsigned 64-bit number, written without a point or an exponent. -/
def Expected.natural : Expected Nat where
  name := "usize"
  accept?
    | .number (.integer (.ofNat n)) => some n
    | _ => none
  outOfRange
    | .number (.integer _) => true
    | _ => false

/-- Nothing that is a scalar. -/
def Expected.never (name : String) : Expected α := ⟨name, fun _ => none, fun _ => false⟩

/-- A value whose first byte is `b`. -/
def expectFrom (e : Expected α) (b : UInt8) (s : Bytes) : Scan (α × Bytes) :=
  if b = Ascii.openBracket then stop (wrongKind "sequence" e.name) (b :: s)
  else if b = Ascii.openBrace then stop (wrongKind "map" e.name) (b :: s)
  else
    match scalar b s with
    | .error stopped => .error stopped
    | .ok (j, r) =>
      match e.accept? j with
      | some a => .ok (a, r)
      | none => stop (e.refusal j) r

def expect (e : Expected α) (s : Bytes) : Scan (α × Bytes) :=
  match skipGap s with
  | [] => stop .endOfValue []
  | b :: r => expectFrom e b r

theorem length_expectFrom {e : Expected α} {b : UInt8} {s r : Bytes} {a : α}
    (h : expectFrom e b s = .ok (a, r)) : r.length ≤ s.length := by
  unfold expectFrom at h
  split at h
  · cases h
  · split at h
    · cases h
    · split at h
      · cases h
      · rename_i hs
        split at h
        · cases h
          exact length_scalar hs
        · cases h

theorem length_expect {e : Expected α} {s r : Bytes} {a : α} (h : expect e s = .ok (a, r)) :
    r.length < s.length := by
  unfold expect at h
  split at h
  · cases h
  · rename_i hs
    exact Nat.lt_of_le_of_lt (length_expectFrom h) (length_lt_of_skipGap hs)

/-- A value that may be `null` instead. -/
def orNull (read : Bytes → Scan (α × Bytes)) (s : Bytes) : Scan (Option α × Bytes) :=
  match skipGap s with
  | [] => stop .endOfValue []
  | b :: r =>
    if b = Ascii.lowerN then (keyword [117, 108, 108] r).map fun r => (none, r)
    else (read (b :: r)).map fun r => (some r.1, r.2)

theorem length_orNull {read : Bytes → Scan (α × Bytes)}
    (hread : ∀ {s r : Bytes} {a : α}, read s = .ok (a, r) → r.length < s.length) {s r : Bytes}
    {a : Option α} (h : orNull read s = .ok (a, r)) : r.length < s.length := by
  unfold orNull at h
  split at h
  · cases h
  · rename_i b t hs
    have hlt := length_lt_of_skipGap hs
    split at h
    · obtain ⟨u, hu, hr⟩ := map_ok h
      cases hr
      exact Nat.lt_of_le_of_lt (length_keyword hu) hlt
    · obtain ⟨u, hu, hr⟩ := map_ok h
      cases hr
      exact Nat.lt_of_lt_of_le (hread hu) hlt

end TimeMerge.Json
