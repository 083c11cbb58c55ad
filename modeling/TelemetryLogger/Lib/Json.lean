import TelemetryLogger.Lib.Decimal
import Mathlib.Data.List.TakeWhile
/-!
# Json — a reader of numbers, strings, arrays and objects

The reader takes natural numbers, strings without escapes, arrays and objects, with blanks between them: a part of JSON,
and nothing else.  `Reads text v` says that it takes `text` for `v` wherever the text stands, and there is one rule for
each way to build a text (`reads_num`, `reads_str`, `reads_arr`, `reads_obj`).  A text is read as one value at most, so
what is read back is what was written (`parse_of_reads`).
-/
namespace Json

inductive Value
  | num (n : Nat)
  | str (text : List Char)
  | arr (values : List Value)
  | obj (fields : List (List Char × Value))

/-! ## The reader -/

def isBlank (c : Char) : Bool := c = ' ' || c = '\n' || c = '\r' || c = '\t'

def skip (cs : List Char) : List Char := cs.dropWhile isBlank

/-- The characters of a string, up to the quote behind them. -/
def chars : List Char → Option (List Char × List Char)
  | [] => none
  | c :: cs =>
    if c = '"' then some ([], cs)
    else if c = '\\' || c.toNat < 32 then none
    else (chars cs).map (fun x => (c :: x.1, x.2))

/-- A number: no zero stands before another digit. -/
def number (cs : List Char) : Option (Value × List Char) :=
  match cs.takeWhile Char.isDigit with
  | [] => none
  | '0' :: _ :: _ => none
  | ds => some (.num (Decimal.value ds), cs.dropWhile Char.isDigit)

mutual

def value : Nat → List Char → Option (Value × List Char)
  | 0, _ => none
  | fuel + 1, cs =>
    match skip cs with
    | '"' :: cs => (chars cs).map (fun x => (.str x.1, x.2))
    | '[' :: cs =>
      match skip cs with
      | ']' :: rest => some (.arr [], rest)
      | _ => (elements fuel cs).map (fun x => (.arr x.1, x.2))
    | '{' :: cs =>
      match skip cs with
      | '}' :: rest => some (.obj [], rest)
      | _ => (members fuel cs).map (fun x => (.obj x.1, x.2))
    | cs => number cs

/-- One element or more, and the bracket behind them. -/
def elements : Nat → List Char → Option (List Value × List Char)
  | 0, _ => none
  | fuel + 1, cs =>
    match value fuel cs with
    | none => none
    | some (v, cs) =>
      match skip cs with
      | ']' :: cs => some ([v], cs)
      | ',' :: cs => (elements fuel cs).map (fun x => (v :: x.1, x.2))
      | _ => none

/-- One member or more, and the brace behind them. -/
def members : Nat → List Char → Option (List (List Char × Value) × List Char)
  | 0, _ => none
  | fuel + 1, cs =>
    match skip cs with
    | '"' :: cs =>
      match chars cs with
      | none => none
      | some (key, cs) =>
        match skip cs with
        | ':' :: cs =>
          match value fuel cs with
          | none => none
          | some (v, cs) =>
            match skip cs with
            | '}' :: cs => some ([(key, v)], cs)
            | ',' :: cs => (members fuel cs).map (fun x => ((key, v) :: x.1, x.2))
            | _ => none
        | _ => none
    | _ => none

end

/-- One value and nothing behind it but blanks. -/
def parse (text : List Char) : Option Value :=
  match value (text.length + 1) text with
  | none => none
  | some (v, rest) => if skip rest = [] then some v else none

/-! ## Texts that are read -/

/-- Nothing goes on with a digit. -/
def Stops (rest : List Char) : Prop := ∀ c ∈ rest.head?, c.isDigit = false

/-- **The reader takes the text for the value**, wherever the text stands. -/
def Reads (text : List Char) (v : Value) : Prop :=
  ∀ (fuel : Nat) (rest : List Char), text.length < fuel → Stops rest → value fuel (text ++ rest) = some (v, rest)

theorem ne_of_isDigit {c d : Char} (hc : c.isDigit = true) (hd : d.isDigit = false) : c ≠ d := by
  rintro rfl
  rw [hc] at hd
  cases hd

theorem isBlank_of_isDigit {c : Char} (hc : c.isDigit = true) : isBlank c = false := by
  have hne := fun d hd => ne_of_isDigit (d := d) hc hd
  simp [isBlank, hne ' ' rfl, hne '\n' rfl, hne '\r' rfl, hne '\t' rfl]

/-- **What was written is read**, also before blanks. -/
theorem parse_of_reads {text : List Char} {v : Value} (h : Reads text v) {bs : List Char}
    (hbs : ∀ b ∈ bs, isBlank b = true) : parse (text ++ bs) = some v := by
  have hlen : text.length < (text ++ bs).length + 1 := Nat.lt_succ_of_le (List.length_append ▸ Nat.le_add_right _ _)
  have hstops : Stops bs := by
    intro c hc
    by_contra hdigit
    have hblank := isBlank_of_isDigit (eq_true_of_ne_false hdigit)
    rw [hbs c (List.mem_of_mem_head? hc)] at hblank
    cases hblank
  have hskip : skip bs = [] := List.dropWhile_eq_nil_iff.2 hbs
  rw [parse, h _ bs hlen hstops]
  exact if_pos hskip

theorem skip_append_blank {bs : List Char} (hbs : ∀ b ∈ bs, isBlank b = true) (cs : List Char) :
    skip (bs ++ cs) = skip cs := List.dropWhile_append_of_pos hbs

theorem value_append_blank {bs : List Char} (hbs : ∀ b ∈ bs, isBlank b = true) (fuel : Nat) (cs : List Char) :
    value fuel (bs ++ cs) = value fuel cs := by
  cases fuel with
  | zero => rfl
  | succ fuel => rw [value, value, skip_append_blank hbs]

/-- A character that stands in a string as it is. -/
def isPlain (c : Char) : Bool := c ≠ '"' && c ≠ '\\' && 32 ≤ c.toNat

def Plain (text : List Char) : Prop := text.all isPlain = true

instance (text : List Char) : Decidable (Plain text) := inferInstanceAs (Decidable (text.all isPlain = true))

theorem chars_append : ∀ {text : List Char}, Plain text → ∀ rest, chars (text ++ '"' :: rest) = some (text, rest)
  | [], _, _ => rfl
  | c :: text, h, rest => by
    rw [Plain, List.all_cons, Bool.and_eq_true] at h
    obtain ⟨hc, htext⟩ := h
    simp only [isPlain, ne_eq, decide_not, Bool.and_eq_true, Bool.not_eq_true', decide_eq_false_iff_not,
      decide_eq_true_eq] at hc
    obtain ⟨⟨hquote, hslash⟩, hlow⟩ := hc
    rw [List.cons_append, chars, if_neg hquote, if_neg (by simp [hslash]; omega), chars_append htext]
    rfl

/-- **A string.** -/
theorem reads_str {text : List Char} (h : Plain text) : Reads ('"' :: (text ++ ['"'])) (.str text) := by
  intro fuel rest hfuel hrest
  cases fuel with
  | zero => cases hfuel
  | succ fuel =>
    have hskip : skip ('"' :: (text ++ ['"']) ++ rest) = '"' :: (text ++ '"' :: rest) := by simp [skip, isBlank]
    rw [value, hskip]
    simp only
    rw [chars_append h]
    rfl

/-! ## Numbers -/

/-- A number in decimal has no zero in front. -/
theorem toDigits_ne (n : Nat) (d : Char) (ds : List Char) : Nat.toDigits 10 n ≠ '0' :: d :: ds := by
  intro h
  have hdigits : Decimal.Digits (d :: ds) := fun c hc =>
    Nat.isDigit_of_mem_toDigits (by decide) (by decide) (h ▸ List.mem_cons_of_mem _ hc)
  have hvalue : Decimal.value (Nat.toDigits 10 n) = n := Nat.ofDigitChars_ten_toDigits
  have hlt : n < 10 ^ (d :: ds).length := by
    rw [h, Decimal.value_cons] at hvalue
    have hrest := Decimal.value_lt hdigits
    have hzero : 10 ^ (d :: ds).length * ('0'.toNat - 48) = 0 := Nat.mul_zero _
    omega
  have hlen := (Nat.length_toDigits_le_iff (by decide : 1 < 10) (Nat.succ_pos ds.length)).2 hlt
  rw [h] at hlen
  exact Nat.lt_irrefl _ hlen

theorem number_append (n : Nat) {rest : List Char} (hrest : Stops rest) :
    number (Nat.toDigits 10 n ++ rest) = some (.num n, rest) := by
  have hdigits : ∀ c ∈ Nat.toDigits 10 n, c.isDigit = true :=
    fun c hc => Nat.isDigit_of_mem_toDigits (by decide) (by decide) hc
  have hstop : rest.takeWhile Char.isDigit = [] ∧ rest.dropWhile Char.isDigit = rest := by
    cases rest with
    | nil => exact ⟨rfl, rfl⟩
    | cons c cs =>
      have hc := hrest c rfl
      exact ⟨List.takeWhile_cons_of_neg (by rw [hc]; exact Bool.false_ne_true),
        List.dropWhile_cons_of_neg (by rw [hc]; exact Bool.false_ne_true)⟩
  have hvalue : Decimal.value (Nat.toDigits 10 n) = n := Nat.ofDigitChars_ten_toDigits
  rw [number, List.takeWhile_append_of_pos hdigits, List.dropWhile_append_of_pos hdigits, hstop.1, hstop.2,
    List.append_nil]
  split
  · rename_i hnil
    exact absurd hnil (List.ne_nil_of_length_pos Nat.length_toDigits_pos)
  · rename_i hzero
    exact absurd hzero (toDigits_ne n _ _)
  · rw [hvalue]

/-- **A number in decimal.** -/
theorem reads_num (n : Nat) : Reads (Nat.toDigits 10 n) (.num n) := by
  intro fuel rest hfuel hrest
  cases fuel with
  | zero => cases hfuel
  | succ fuel =>
    obtain ⟨c, ds, hcons⟩ : ∃ c ds, Nat.toDigits 10 n = c :: ds :=
      List.exists_cons_of_ne_nil (List.ne_nil_of_length_pos Nat.length_toDigits_pos)
    have hc : c.isDigit = true :=
      Nat.isDigit_of_mem_toDigits (by decide) (by decide) (hcons ▸ List.mem_cons_self : c ∈ Nat.toDigits 10 n)
    have hnumber := number_append n hrest
    rw [hcons, List.cons_append] at hnumber ⊢
    have hskip : skip (c :: (ds ++ rest)) = c :: (ds ++ rest) := by
      apply List.dropWhile_cons_of_neg
      rw [isBlank_of_isDigit hc]
      exact Bool.false_ne_true
    rw [value, hskip]
    -- a digit opens no string, array or object
    split
    · rename_i h
      exact absurd (List.cons.inj h).1 (ne_of_isDigit hc rfl)
    · rename_i h
      exact absurd (List.cons.inj h).1 (ne_of_isDigit hc rfl)
    · rename_i h
      exact absurd (List.cons.inj h).1 (ne_of_isDigit hc rfl)
    · exact hnumber

/-! ## Arrays and objects -/

/-- A text that is read does not close anything. -/
theorem skip_ne_of_reads {text : List Char} {v : Value} (h : Reads text v) {rest : List Char} (hrest : Stops rest)
    {close : Char} (hclose : close = ']' ∨ close = '}') (cs : List Char) : skip (text ++ rest) ≠ close :: cs := by
  intro hskip
  have hread := h (text.length + 1) rest (Nat.lt_succ_self _) hrest
  rw [value, hskip] at hread
  rcases hclose with rfl | rfl
  · cases hread
  · cases hread

theorem stops_cons {c : Char} (hc : c.isDigit = false) (cs : List Char) : Stops (c :: cs) := by
  rintro d ⟨⟩
  exact hc

/-- The first of some texts, and what stands behind it. -/
theorem join_eq (bs t : List Char) (ts : List (List Char)) {close : Char} (hclose : close.isDigit = false)
    (rest : List Char) :
    ∃ tail, Stops tail ∧ List.intercalate (',' :: bs) (t :: ts) ++ close :: rest = t ++ tail := by
  cases ts with
  | nil => exact ⟨close :: rest, stops_cons hclose rest, by rw [List.intercalate_singleton]⟩
  | cons t' ts =>
    refine ⟨',' :: (bs ++ (List.intercalate (',' :: bs) (t' :: ts) ++ close :: rest)), stops_cons rfl _, ?_⟩
    rw [List.intercalate_cons_cons, List.append_assoc, List.append_assoc, List.cons_append]

/-- **Elements with commas between them**, and blanks behind a comma. -/
theorem elements_join {bs : List Char} (hbs : ∀ b ∈ bs, isBlank b = true) : ∀ (t : List Char × Value)
    (ts : List (List Char × Value)) (fuel : Nat) (rest : List Char), (∀ t' ∈ t :: ts, Reads t'.1 t'.2) →
    (List.intercalate (',' :: bs) ((t :: ts).map Prod.fst)).length + 1 < fuel →
    elements fuel (List.intercalate (',' :: bs) ((t :: ts).map Prod.fst) ++ ']' :: rest)
      = some ((t :: ts).map Prod.snd, rest)
  | _, _, 0, _, _, hfuel => absurd hfuel (Nat.not_lt_zero _)
  | t, [], fuel + 1, rest, h, hfuel => by
    rw [List.map_singleton, List.intercalate_singleton] at hfuel ⊢
    rw [elements, h t List.mem_cons_self fuel (']' :: rest) (Nat.lt_of_succ_lt_succ hfuel) (stops_cons rfl rest)]
    rfl
  | t, t' :: ts, fuel + 1, rest, h, hfuel => by
    rw [List.map_cons, List.map_cons, List.intercalate_cons_cons, List.append_assoc, ← List.map_cons] at hfuel ⊢
    rw [List.length_append, List.length_append, List.length_cons] at hfuel
    have ih := elements_join hbs t' ts fuel rest (fun u hu => h u (List.mem_cons_of_mem t hu)) (by omega)
    have hread := h t List.mem_cons_self fuel
      (',' :: (bs ++ (List.intercalate (',' :: bs) ((t' :: ts).map Prod.fst) ++ ']' :: rest))) (by omega)
      (stops_cons rfl _)
    have hblank : elements fuel (bs ++ (List.intercalate (',' :: bs) ((t' :: ts).map Prod.fst) ++ ']' :: rest))
        = elements fuel (List.intercalate (',' :: bs) ((t' :: ts).map Prod.fst) ++ ']' :: rest) := by
      cases fuel with
      | zero => rfl
      | succ fuel => rw [elements, elements, value_append_blank hbs]
    rw [List.append_assoc, List.cons_append, elements, hread]
    show (elements fuel (bs ++ _)).map _ = _
    rw [hblank, ih]
    rfl

/-- **An array**: texts with commas between them, and blanks behind a comma. -/
theorem reads_arr {bs : List Char} (hbs : ∀ b ∈ bs, isBlank b = true) {ts : List (List Char × Value)}
    (h : ∀ t ∈ ts, Reads t.1 t.2) :
    Reads ('[' :: (List.intercalate (',' :: bs) (ts.map Prod.fst) ++ [']'])) (.arr (ts.map Prod.snd)) := by
  intro fuel rest hfuel hrest
  cases fuel with
  | zero => cases hfuel
  | succ fuel =>
    rw [List.length_cons, List.length_append, List.length_singleton] at hfuel
    rw [List.cons_append, List.append_assoc, List.singleton_append, value]
    cases ts with
    | nil => rfl
    | cons t ts =>
      have helements := elements_join hbs t ts fuel rest h (by omega)
      obtain ⟨tail, htail, heq⟩ := join_eq bs t.1 (ts.map Prod.fst) (show (']' : Char).isDigit = false from rfl) rest
      rw [List.map_cons] at helements ⊢
      simp only [show skip ('[' :: (List.intercalate (',' :: bs) (t.1 :: ts.map Prod.fst) ++ ']' :: rest))
        = '[' :: (List.intercalate (',' :: bs) (t.1 :: ts.map Prod.fst) ++ ']' :: rest) from rfl]
      rw [helements]
      split
      · rename_i hskip
        rw [heq] at hskip
        exact absurd hskip (skip_ne_of_reads (h t List.mem_cons_self) htail (Or.inl rfl) _)
      · rfl

/-- A member of an object: the key, the text of the value, and the value. -/
structure Member where
  key : List Char
  text : List Char
  value : Value

def Member.write (m : Member) : List Char := '"' :: (m.key ++ '"' :: ':' :: m.text)

theorem Member.length_write (m : Member) : m.write.length = m.key.length + m.text.length + 3 := by
  rw [write, List.length_cons, List.length_append, List.length_cons, List.length_cons]
  omega

/-- One member, and what its end decides. -/
theorem members_write {m : Member} (hkey : Plain m.key) (hread : Reads m.text m.value) {fuel : Nat}
    (hfuel : m.text.length < fuel) {rest : List Char} (hrest : Stops rest) :
    members (fuel + 1) (m.write ++ rest) = match skip rest with
      | '}' :: cs => some ([(m.key, m.value)], cs)
      | ',' :: cs => (members fuel cs).map (fun x => ((m.key, m.value) :: x.1, x.2))
      | _ => none := by
  have hskip : skip (m.write ++ rest) = '"' :: (m.key ++ '"' :: (':' :: (m.text ++ rest))) := by
    simp [Member.write, skip, isBlank]
  have hcolon : skip (':' :: (m.text ++ rest)) = ':' :: (m.text ++ rest) := rfl
  rw [members, hskip]
  simp only
  rw [chars_append hkey]
  simp only [hcolon]
  rw [hread fuel rest hfuel hrest]

/-- **Members with commas between them.** -/
theorem members_join : ∀ (m : Member) (ms : List Member) (fuel : Nat) (rest : List Char),
    (∀ m' ∈ m :: ms, Plain m'.key ∧ Reads m'.text m'.value) →
    (List.intercalate [','] ((m :: ms).map Member.write)).length < fuel →
    members fuel (List.intercalate [','] ((m :: ms).map Member.write) ++ '}' :: rest)
      = some ((m :: ms).map (fun m => (m.key, m.value)), rest)
  | _, _, 0, _, _, hfuel => absurd hfuel (Nat.not_lt_zero _)
  | m, [], fuel + 1, rest, h, hfuel => by
    obtain ⟨hkey, hread⟩ := h m List.mem_cons_self
    rw [List.map_singleton, List.intercalate_singleton] at hfuel ⊢
    rw [m.length_write] at hfuel
    rw [members_write hkey hread (by omega) (stops_cons rfl rest)]
    rfl
  | m, m' :: ms, fuel + 1, rest, h, hfuel => by
    obtain ⟨hkey, hread⟩ := h m List.mem_cons_self
    rw [List.map_cons, List.map_cons, List.intercalate_cons_cons, List.append_assoc, ← List.map_cons] at hfuel ⊢
    rw [List.length_append, List.length_append, List.length_singleton, m.length_write] at hfuel
    have ih := members_join m' ms fuel rest (fun u hu => h u (List.mem_cons_of_mem m hu)) (by omega)
    rw [List.append_assoc, List.singleton_append,
      members_write hkey hread (by omega) (stops_cons rfl _)]
    show (members fuel (List.intercalate [','] ((m' :: ms).map Member.write) ++ '}' :: rest)).map _ = _
    rw [ih]
    rfl

/-- **An object**: members with commas between them. -/
theorem reads_obj {ms : List Member} (h : ∀ m ∈ ms, Plain m.key ∧ Reads m.text m.value) :
    Reads ('{' :: (List.intercalate [','] (ms.map Member.write) ++ ['}']))
      (.obj (ms.map (fun m => (m.key, m.value)))) := by
  intro fuel rest hfuel hrest
  cases fuel with
  | zero => cases hfuel
  | succ fuel =>
    rw [List.length_cons, List.length_append, List.length_singleton] at hfuel
    rw [List.cons_append, List.append_assoc, List.singleton_append, value]
    cases ms with
    | nil => rfl
    | cons m ms =>
      have hmembers := members_join m ms fuel rest h (by omega)
      simp only [show skip ('{' :: (List.intercalate [','] ((m :: ms).map Member.write) ++ '}' :: rest))
        = '{' :: (List.intercalate [','] ((m :: ms).map Member.write) ++ '}' :: rest) from rfl]
      rw [hmembers]
      split
      · rename_i hskip
        obtain ⟨tail, -, heq⟩ := join_eq [] m.write (ms.map Member.write) (show ('}' : Char).isDigit = false from rfl)
          rest
        rw [List.map_cons, heq, Member.write, List.cons_append] at hskip
        cases hskip
      · rfl

end Json
