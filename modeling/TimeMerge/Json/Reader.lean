import TimeMerge.Json.Numeral

/-!
Reading JSON text. `value` reads one value and `parse` a whole text, in which nothing but blanks may
follow the value. Arrays and objects may be nested `maxDepth` deep.
-/
namespace TimeMerge.Json

/-- What lies ahead once at least one byte of `s` is read. -/
abbrev Ahead (s : Bytes) := { r : Bytes // r.length < s.length }

/-- The next thing inside brackets: their end, or an element that starts here. -/
inductive Next where
  | closed (ahead : Bytes)
  | element (ahead : Bytes)

def nextItem (first : Bool) (s : Bytes) : Scan Next :=
  match skipGap s with
  | [] => stop .endOfList []
  | b :: r =>
    if b = Ascii.closeBracket then .ok (.closed r)
    else if first then .ok (.element (b :: r))
    else if b = Ascii.comma then
      match skipGap r with
      | [] => stop .endOfValue []
      | c :: t =>
        if c = Ascii.closeBracket then stopAtNext .trailingComma (c :: t)
        else .ok (.element (c :: t))
    else stopAtNext .expectedListCommaOrEnd (b :: r)

/-- The opening quote of a key. -/
def keyQuote (s : Bytes) : Scan Bytes :=
  match s with
  | [] => stop .endOfValue []
  | b :: r =>
    if b = Ascii.doubleQuote then .ok r
    else stopAtNext (if b = Ascii.closeBrace then .trailingComma else .keyNotAString) (b :: r)

/-- As `nextItem`, for the members of an object; a member starts after the quote of its key. -/
def nextMember (first : Bool) (s : Bytes) : Scan Next :=
  match skipGap s with
  | [] => stop .endOfObject []
  | b :: r =>
    if b = Ascii.closeBrace then .ok (.closed r)
    else if first then (keyQuote (b :: r)).map .element
    else if b = Ascii.comma then (keyQuote (skipGap r)).map .element
    else stopAtNext .expectedObjectCommaOrEnd (b :: r)

def colon (s : Bytes) : Scan Bytes :=
  match skipGap s with
  | [] => stop .endOfObject []
  | b :: r => if b = Ascii.colon then .ok r else stopAtNext .expectedColon (b :: r)

theorem length_nextItem_closed {first : Bool} {s r : Bytes}
    (h : nextItem first s = .ok (.closed r)) : r.length < s.length := by
  unfold nextItem at h
  split at h
  · cases h
  · rename_i hs
    split at h
    · cases h
      exact length_lt_of_skipGap hs
    · split at h
      · cases h
      · split at h
        · split at h
          · cases h
          · split at h <;> cases h
        · cases h

theorem length_nextItem_element {first : Bool} {s r : Bytes}
    (h : nextItem first s = .ok (.element r)) : r.length ≤ s.length := by
  unfold nextItem at h
  split at h
  · cases h
  · rename_i hs
    have hlt := length_lt_of_skipGap hs
    split at h
    · cases h
    · split at h
      · cases h
        exact hlt
      · split at h
        · split at h
          · cases h
          · rename_i ht
            have := length_lt_of_skipGap ht
            split at h
            · cases h
            · cases h
              simp only [List.length_cons]
              omega
        · cases h

theorem length_keyQuote {s r : Bytes} (h : keyQuote s = .ok r) : r.length < s.length := by
  unfold keyQuote at h
  split at h
  · cases h
  · split at h
    · cases h
      exact Nat.lt_succ_self _
    · cases h

theorem map_element {x : Scan Bytes} {r : Bytes} (h : x.map .element = .ok (Next.element r)) :
    x = .ok r := by
  obtain ⟨t, ht, hr⟩ := map_ok h
  cases hr
  exact ht

theorem length_nextMember_closed {first : Bool} {s r : Bytes}
    (h : nextMember first s = .ok (.closed r)) : r.length < s.length := by
  unfold nextMember at h
  split at h
  · cases h
  · rename_i b t hs
    split at h
    · cases h
      exact length_lt_of_skipGap hs
    · split at h
      · cases hk : keyQuote (b :: t) <;> rw [hk] at h <;> cases h
      · split at h
        · cases hk : keyQuote (skipGap t) <;> rw [hk] at h <;> cases h
        · cases h

theorem length_nextMember_element {first : Bool} {s r : Bytes}
    (h : nextMember first s = .ok (.element r)) : r.length < s.length := by
  unfold nextMember at h
  split at h
  · cases h
  · rename_i b t hs
    have hlt := length_lt_of_skipGap hs
    split at h
    · cases h
    · split at h
      · exact Nat.lt_of_lt_of_le (length_keyQuote (map_element h)) hlt
      · split at h
        · have := length_keyQuote (map_element h)
          have := length_skipGap_le t
          omega
        · cases h

theorem length_colon {s r : Bytes} (h : colon s = .ok r) : r.length < s.length := by
  unfold colon at h
  split at h
  · cases h
  · rename_i hs
    split at h
    · cases h
      exact length_lt_of_skipGap hs
    · cases h

/-- Reads the rest of a word that stands for `j`. -/
def word (rest : Bytes) (j : Json) (s : Bytes) : Scan (Json × Bytes) :=
  (keyword rest s).map fun r => (j, r)

/-- A value whose first byte is `b`, unless it is an array or an object. -/
def scalar (b : UInt8) (s : Bytes) : Scan (Json × Bytes) :=
  if b = Ascii.lowerN then word [117, 108, 108] .null s
  else if b = Ascii.lowerT then word [114, 117, 101] (.bool true) s
  else if b = Ascii.lowerF then word [97, 108, 115, 101] (.bool false) s
  else if b = Ascii.minus then (numeral true s).map fun r => (.number r.1, r.2)
  else if Ascii.isDigit b then (numeral false (b :: s)).map fun r => (.number r.1, r.2)
  else if b = Ascii.doubleQuote then (stringBody s).map fun r => (.string r.1, r.2)
  else stopAtNext .expectedValue (b :: s)

theorem length_scalar {b : UInt8} {s r : Bytes} {j : Json} (h : scalar b s = .ok (j, r)) :
    r.length ≤ s.length := by
  have hw : ∀ {w v}, word w v s = .ok (j, r) → r.length ≤ s.length := by
    intro w v h
    unfold word at h
    cases hk : keyword w s with
    | error e => rw [hk] at h; cases h
    | ok t => rw [hk] at h; cases h; exact length_keyword hk
  unfold scalar at h
  split at h
  · exact hw h
  split at h
  · exact hw h
  split at h
  · exact hw h
  split at h
  · cases hn : numeral true s with
    | error e => rw [hn] at h; cases h
    | ok p => rw [hn] at h; cases h; exact Nat.le_of_lt (length_numeral hn)
  split at h
  · cases hn : numeral false (b :: s) with
    | error e => rw [hn] at h; cases h
    | ok p => rw [hn] at h; cases h; exact Nat.le_of_lt_succ (length_numeral hn)
  split at h
  · cases hb : stringBody s with
    | error e => rw [hb] at h; cases h
    | ok p => rw [hb] at h; cases h; exact Nat.le_of_lt (length_stringBody hb)
  · cases h

mutual

def value (depth : Nat) (s : Bytes) : Scan (Json × Ahead s) :=
  match hs : skipGap s with
  | [] => stop .endOfValue []
  | b :: r =>
    have hr := length_lt_of_skipGap hs
    if b = Ascii.openBracket then
      if depth = 0 then stopAtNext .recursionLimit (b :: r)
      else
        match items (depth - 1) true r with
        | .error e => .error e
        | .ok (js, ⟨t, ht⟩) => .ok (.array js, ⟨t, Nat.lt_trans ht hr⟩)
    else if b = Ascii.openBrace then
      if depth = 0 then stopAtNext .recursionLimit (b :: r)
      else
        match members (depth - 1) true r with
        | .error e => .error e
        | .ok (ms, ⟨t, ht⟩) => .ok (ofMembers ms, ⟨t, Nat.lt_trans ht hr⟩)
    else
      match h : scalar b r with
      | .error e => .error e
      | .ok (j, t) => .ok (j, ⟨t, Nat.lt_of_le_of_lt (length_scalar h) hr⟩)
termination_by (s.length, 0)
decreasing_by all_goals simp only [Prod.lex_def]; omega

def items (depth : Nat) (first : Bool) (s : Bytes) : Scan (List Json × Ahead s) :=
  match hn : nextItem first s with
  | .error e => .error e
  | .ok (.closed r) => .ok ([], ⟨r, length_nextItem_closed hn⟩)
  | .ok (.element r) =>
    have hr := length_nextItem_element hn
    match value depth r with
    | .error e => .error e
    | .ok (j, ⟨t, ht⟩) =>
      match items depth false t with
      | .error e => .error e
      | .ok (js, ⟨u, hu⟩) => .ok (j :: js, ⟨u, Nat.lt_trans hu (Nat.lt_of_lt_of_le ht hr)⟩)
termination_by (s.length, 1)
decreasing_by all_goals simp only [Prod.lex_def]; omega

def members (depth : Nat) (first : Bool) (s : Bytes) : Scan (List (String × Json) × Ahead s) :=
  match hn : nextMember first s with
  | .error e => .error e
  | .ok (.closed r) => .ok ([], ⟨r, length_nextMember_closed hn⟩)
  | .ok (.element r) =>
    have hr := length_nextMember_element hn
    match hk : stringBody r with
    | .error e => .error e
    | .ok (key, t) =>
      have ht := length_stringBody hk
      match hc : colon t with
      | .error e => .error e
      | .ok u =>
        have hu := length_colon hc
        match value depth u with
        | .error e => .error e
        | .ok (j, ⟨v, hv⟩) =>
          match members depth false v with
          | .error e => .error e
          | .ok (ms, ⟨w, hw⟩) => .ok ((key, j) :: ms, ⟨w, by omega⟩)
termination_by (s.length, 1)
decreasing_by all_goals simp only [Prod.lex_def]; omega

end

def maxDepth : Nat := 127

/-- Only blanks may be left. -/
def finish (s : Bytes) : Scan Unit :=
  match skipGap s with
  | [] => .ok ()
  | b :: r => stopAtNext .trailingCharacters (b :: r)

def document (s : Bytes) : Scan Json :=
  match value maxDepth s with
  | .error e => .error e
  | .ok (j, ⟨r, _⟩) => (finish r).map fun _ => j

def parse (s : Bytes) : Except SyntaxError Json := (document s).mapError (Stop.toError s)

end TimeMerge.Json
