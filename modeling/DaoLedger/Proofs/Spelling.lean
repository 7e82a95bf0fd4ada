import DaoLedger.Json.Format
import DaoLedger.Json.Printer
import DaoLedger.Json.Reader
import Mathlib.Data.List.TakeWhile
/-!
JSON values and the texts that spell them. Main statement: a value whose numbers are natural and
whose texts are whole is read back from the text that is written for it.
-/
namespace DaoLedger

/-! ### Numbers -/

namespace Text

theorem isDigit_decimal (n : Nat) : ∀ c ∈ decimal n, Json.isDigit c := by
  have hdigit : ∀ m : Fin 10, Json.isDigit (digit m.val) := by decide
  fun_induction decimal n with
  | case1 n h => simpa using hdigit ⟨n, h⟩
  | case2 n h ih =>
    intro c hc
    rcases List.mem_append.1 hc with hc | hc
    · exact ih c hc
    · rw [List.mem_singleton.1 hc]
      exact hdigit ⟨n % 10, Nat.mod_lt n (by decide)⟩

theorem head?_decimal {n : Nat} (h : n ≠ 0) : (decimal n).head? ≠ some '0' := by
  have hdigit : ∀ m : Fin 10, m.val ≠ 0 → digit m.val ≠ '0' := by decide
  fun_induction decimal n with
  | case1 n hlt => simpa using hdigit ⟨n, hlt⟩ h
  | case2 n hge ih =>
    rw [List.head?_append, Option.or_of_isSome (by simp [decimal_ne_nil])]
    exact ih (by omega)

end Text

namespace Json

theorem isNumber_decimal (n : Nat) : isNumber (Text.decimal n) := by
  have hdigits := Text.isDigit_decimal n
  have hne := Text.decimal_ne_nil n
  have hunsigned : isUnsigned (Text.decimal n) := by
    have htake : (Text.decimal n).takeWhile isDigit = Text.decimal n :=
      List.takeWhile_eq_self_iff.2 hdigits
    have hdrop : (Text.decimal n).dropWhile isDigit = [] := List.dropWhile_eq_nil_iff.2 hdigits
    rw [isUnsigned, htake, hdrop]
    by_cases h : n = 0
    · have hzero : Text.decimal 0 = ['0'] := by
        rw [Text.decimal]
        rfl
      rw [h, hzero]
      decide
    · simp [hne, Text.head?_decimal h, isFraction, isExponent]
  unfold isNumber
  split
  · next cs heq =>
    have hsign := hdigits '-' (heq ▸ List.mem_cons_self)
    cases hsign
  · exact hunsigned

/-! ### Texts -/

inductive Escaped (c : Char) : List Char → Prop where
  | short {e : Char} (he : shortEscape? e = some c) (hu : e ≠ 'u') : Escaped c ['\\', e]
  | control (hc : c.toNat < 32) : Escaped c
      ['\\', 'u', '0', '0', Text.digit (c.toNat / 16), Text.digit (c.toNat % 16)]
  | plain (hquote : c ≠ '"') (hback : c ≠ '\\') (hc : ¬c.toNat < 32) : Escaped c [c]

theorem escaped (c : Char) : Escaped c (escape c) := by
  unfold escape
  split
  case h_8 hquote hback _ _ _ _ _ =>
    split
    · next hc => exact .control hc
    · next hc => exact .plain hquote hback hc
  all_goals exact .short rfl (by decide)

def Code.Means (k : Code) (c : Char) : Prop :=
  ∀ ks, characters (k :: ks) = some c :: characters ks

theorem Code.means_unit {c : Char} (h : c.toNat < 0xd800) : (Code.unit c.toNat).Means c := by
  have hhigh : isHigh c.toNat = false := by simp [isHigh]; omega
  have hlow : isLow c.toNat = false := by simp [isLow]; omega
  intro ks
  match ks with
  | [] | .char _ :: _ | .unit _ :: _ => simp [characters, hhigh, hlow, Char.ofNat_toNat]

theorem fourHex?_control {n : Nat} (h : n < 32) :
    fourHex? '0' '0' (Text.digit (n / 16)) (Text.digit (n % 16)) = some n := by
  have hall : ∀ m : Fin 32,
      fourHex? '0' '0' (Text.digit (m.val / 16)) (Text.digit (m.val % 16)) = some m.val := by
    decide
  exact hall ⟨n, h⟩

theorem codes?_escape (c : Char) : ∃ k : Code, k.Means c ∧
    ∀ cs, codes? (escape c ++ cs) = (codes? cs).map (k :: ·) := by
  have h := escaped c
  generalize escape c = written at h
  cases h with
  | @short e he hu =>
    refine ⟨.char c, fun _ => rfl, fun cs => ?_⟩
    cases hcs : codes? cs <;> simp [codes?, he, hu, hcs]
  | control hc =>
    refine ⟨.unit c.toNat, Code.means_unit (by omega), fun cs => ?_⟩
    cases hcs : codes? cs <;> simp [codes?, fourHex?_control hc, hcs]
  | plain hquote hback hc =>
    refine ⟨.char c, fun _ => rfl, fun cs => ?_⟩
    simp [codes?, hback, hc]

theorem exists_codes (cs : List Char) :
    ∃ ks, codes? (cs.flatMap escape) = some ks ∧ characters ks = cs.map some := by
  induction cs with
  | nil => exact ⟨[], rfl, rfl⟩
  | cons c cs ih =>
    obtain ⟨ks, hks, hcs⟩ := ih
    obtain ⟨k, hk, hcode⟩ := codes?_escape c
    exact ⟨k :: ks, by simp [hcode, hks], by simp [hk ks, hcs]⟩

theorem everyOne_map_some (cs : List Char) : everyOne (cs.map some) = some cs := by
  induction cs with
  | nil => rfl
  | cons c cs ih => simp [everyOne, ih]

theorem unquote?_escape (s : String) : unquote? (s.toList.flatMap escape) = some (.text s) := by
  obtain ⟨ks, hks, hcs⟩ := exists_codes s.toList
  simp [unquote?, hks, hcs, everyOne_map_some]

/-! ### Scanning -/

section
variable {c : Char}

theorem isBlank_of_isMark (hc : isMark c) : isBlank c = false := by
  have hall : ∀ c ∈ ['[', ']', '{', '}', ':', ','], isBlank c = false := by simp [isBlank]
  exact hall c (of_decide_eq_true hc)

theorem foreign_of_separates (hc : isBlank c ∨ isMark c) :
    inNumber c = false ∧ isLetter c = false := by
  have hblank : ∀ c ∈ [' ', '\t', '\n', '\r'], inNumber c = false ∧ isLetter c = false := by
    simp [inNumber, isDigit, isLetter]
  have hmark : ∀ c ∈ ['[', ']', '{', '}', ':', ','], inNumber c = false ∧ isLetter c = false := by
    simp [inNumber, isDigit, isLetter]
  exact hc.elim (fun hc => hblank c (of_decide_eq_true hc)) fun hc => hmark c (of_decide_eq_true hc)

theorem begin?_of_isDigit (hc : isDigit c) : begin? c = some (.number [c], []) := by
  have hnumber : inNumber c := by simp [inNumber, hc]
  have hseparates (h : isBlank c ∨ isMark c) : False := by
    simp [(foreign_of_separates h).1] at hnumber
  have hletter : isLetter c = false := by
    simp only [isDigit, Bool.and_eq_true, decide_eq_true_eq] at hc
    have hlow : ¬ 'a' ≤ c := fun h => absurd (Char.le_trans h hc.2) (by decide)
    simp [isLetter, hlow]
  have hblank : isBlank c = false := Bool.eq_false_iff.2 fun h => hseparates (.inl h)
  have hmark : isMark c = false := Bool.eq_false_iff.2 fun h => hseparates (.inr h)
  simp [begin?, hblank, hmark, hletter, hnumber]

end

theorem scanFrom?_escape (c : Char) (seen : List Char) (found : List Token) (cs : List Char) :
    scanFrom? (.text seen false) found (escape c ++ cs) =
      scanFrom? (.text ((escape c).reverse ++ seen) false) found cs := by
  have hdigit : ∀ m : Fin 16,
      (Text.digit m.val == '"') = false ∧ (Text.digit m.val == '\\') = false := by decide
  have h := escaped c
  generalize escape c = written at h
  cases h with
  | short he hu => simp [scanFrom?, Partly.step?]
  | control hc =>
    have hhigh := hdigit ⟨c.toNat / 16, by omega⟩
    have hlow := hdigit ⟨c.toNat % 16, by omega⟩
    simp [scanFrom?, Partly.step?, hhigh, hlow]
  | plain hquote hback hc =>
    rw [← beq_eq_false_iff_ne] at hquote hback
    simp [scanFrom?, Partly.step?, hquote, hback]

theorem scanFrom?_escapes (s seen : List Char) (found : List Token) (cs : List Char) :
    scanFrom? (.text seen false) found (s.flatMap escape ++ cs) =
      scanFrom? (.text ((s.flatMap escape).reverse ++ seen) false) found cs := by
  induction s generalizing seen with
  | nil => rfl
  | cons c s ih =>
    rw [List.flatMap_cons, List.append_assoc, scanFrom?_escape, ih, List.reverse_append,
      List.append_assoc]

/-- Scanning the characters adds the tokens to those found before. -/
def Scans (cs : List Char) (ts : List Token) : Prop :=
  ∀ found, scanFrom? .nothing found cs = some (found.reverse ++ ts)

/-- No number and no word goes on here. -/
def Apart (cs : List Char) : Prop := ∀ c ∈ cs.head?, isBlank c ∨ isMark c

namespace Scans
variable {cs : List Char} {ts : List Token} {c : Char}

theorem nil : Scans [] [] := by simp [Scans, scanFrom?, Partly.finish?]

theorem blank (h : Scans cs ts) (hc : isBlank c) : Scans (c :: cs) ts := by
  intro found
  simp [scanFrom?, Partly.step?, begin?, hc, h found]

theorem mark (h : Scans cs ts) (hc : isMark c) : Scans (c :: cs) (.mark c :: ts) := by
  intro found
  simp [scanFrom?, Partly.step?, begin?, isBlank_of_isMark hc, hc, h (.mark c :: found)]

theorem ended {now : Partly} {t : Token} {found : List Token} (h : Scans cs ts) (ha : Apart cs)
    (hfinish : now.finish? = some [t])
    (hstep : ∀ c, isBlank c ∨ isMark c →
      now.step? c = (begin? c).bind fun p => some (p.1, p.2 ++ [t])) :
    scanFrom? now found cs = some (found.reverse ++ t :: ts) := by
  have hnothing : Partly.nothing.finish? = some [] := rfl
  -- The end of the text and a separator both complete the token and then start afresh.
  have hnext : scanFrom? now found cs = scanFrom? .nothing (t :: found) cs := by
    cases cs with
    | nil => simp [scanFrom?, hfinish, hnothing]
    | cons c cs =>
      rw [scanFrom?, scanFrom?, hstep c (ha c rfl), Partly.step?]
      cases begin? c with
      | none => rfl
      | some p => simp
  simp [hnext, h (t :: found)]

theorem word {v : Json} {found : List Token} (h : Scans cs ts) (seen : List Char)
    (ha : Apart cs) (hv : ofWord? seen.reverse = some v) :
    scanFrom? (.word seen) found cs = some (found.reverse ++ .scalar v :: ts) := by
  have hfinish : (Partly.word seen).finish? = some [.scalar v] := by simp [Partly.finish?, hv]
  refine h.ended ha hfinish fun c hc => ?_
  simp [Partly.step?, (foreign_of_separates hc).2, hfinish]

theorem number {seen : List Char} {v : Json} {found : List Token} (h : Scans cs ts)
    (ha : Apart cs) (hv : ofNumber? seen.reverse = some v) :
    scanFrom? (.number seen) found cs = some (found.reverse ++ .scalar v :: ts) := by
  have hfinish : (Partly.number seen).finish? = some [.scalar v] := by simp [Partly.finish?, hv]
  refine h.ended ha hfinish fun c hc => ?_
  simp [Partly.step?, (foreign_of_separates hc).1, hfinish]

theorem null (h : Scans cs ts) (ha : Apart cs) :
    Scans (scalar .null ++ cs) (.scalar .null :: ts) :=
  fun _ => h.word ['l', 'l', 'u', 'n'] ha rfl

theorem bool (h : Scans cs ts) (ha : Apart cs) (b : Bool) :
    Scans (scalar (.bool b) ++ cs) (.scalar (.bool b) :: ts) := by
  cases b with
  | false => exact fun _ => h.word ['e', 's', 'l', 'a', 'f'] ha rfl
  | true => exact fun _ => h.word ['e', 'u', 'r', 't'] ha rfl

theorem digits {ds seen : List Char} {v : Json} {found : List Token} (h : Scans cs ts)
    (ha : Apart cs) (hds : ∀ d ∈ ds, isDigit d) (hv : ofNumber? (seen.reverse ++ ds) = some v) :
    scanFrom? (.number seen) found (ds ++ cs) = some (found.reverse ++ .scalar v :: ts) := by
  induction ds generalizing seen with
  | nil => exact h.number ha (by simpa using hv)
  | cons d ds ih =>
    have hd : inNumber d := by simp [inNumber, hds d List.mem_cons_self]
    rw [List.cons_append, scanFrom?, Partly.step?, if_pos hd]
    exact ih (fun d hm => hds d (List.mem_cons_of_mem _ hm)) (by simpa using hv)

theorem ofNat (h : Scans cs ts) (ha : Apart cs) (n : Nat) :
    Scans (scalar (.ofNat n) ++ cs) (.scalar (.ofNat n) :: ts) := by
  have hv : ofNumber? (Text.decimal n) = some (.ofNat n) := by
    simp [ofNumber?, isNumber_decimal, Json.ofNat]
  have hdigits := Text.isDigit_decimal n
  have hliteral : scalar (.ofNat n) = Text.decimal n := String.toList_ofList
  rw [hliteral]
  cases hn : Text.decimal n with
  | nil => exact absurd hn (Text.decimal_ne_nil n)
  | cons d ds =>
    rw [hn] at hv hdigits
    obtain ⟨hd, hds⟩ := List.forall_mem_cons.1 hdigits
    intro found
    rw [List.cons_append, scanFrom?, Partly.step?, begin?_of_isDigit hd]
    exact h.digits ha hds hv

theorem text (h : Scans cs ts) (s : String) :
    Scans (quote s ++ cs) (.scalar (.text s) :: ts) := by
  intro found
  have hbegin : begin? '"' = some (.text [] false, []) := rfl
  rw [quote, List.cons_append, List.append_assoc, scanFrom?, Partly.step?, hbegin]
  dsimp only
  rw [scanFrom?_escapes]
  simp [scanFrom?, Partly.step?, unquote?_escape, h (.scalar (.text s) :: found)]

theorem newline (h : Scans cs ts) (depth : Nat) : Scans (newline depth ++ cs) ts := by
  have hblanks : Scans (List.replicate (2 * depth) ' ' ++ cs) ts := by
    induction 2 * depth with
    | zero => exact h
    | succ n ih =>
      rw [List.replicate_succ, List.cons_append]
      exact ih.blank rfl
  exact hblanks.blank rfl

end Scans

/-! ### Tokens of a value -/

mutual

def tokens : Json → List Token
  | .array items => .mark '[' :: (itemTokens items ++ [.mark ']'])
  | .object fields => .mark '{' :: (fieldTokens fields ++ [.mark '}'])
  | v => [.scalar v]

def itemTokens : List Json → List Token
  | [] => []
  | [v] => tokens v
  | v :: w :: vs => tokens v ++ .mark ',' :: itemTokens (w :: vs)

def fieldTokens : List (String × Json) → List Token
  | [] => []
  | [(k, v)] => .scalar (.text k) :: .mark ':' :: tokens v
  | (k, v) :: f :: fs =>
    .scalar (.text k) :: .mark ':' :: (tokens v ++ .mark ',' :: fieldTokens (f :: fs))

end

/-- A value with natural numbers for numbers and without a broken text. -/
inductive Clean : Json → Prop where
  | null : Clean .null
  | bool (b : Bool) : Clean (.bool b)
  | natural (n : Nat) : Clean (.ofNat n)
  | text (s : String) : Clean (.text s)
  | array {items : List Json} (h : ∀ v ∈ items, Clean v) : Clean (.array items)
  | object {fields : List (String × Json)} (h : ∀ f ∈ fields, Clean f.2) : Clean (.object fields)

/-! ### Printing -/

/-- Wherever the text of a value stands, its tokens are scanned. -/
def Printed (v : Json) : Prop :=
  ∀ depth cs ts, Apart cs → Scans cs ts → Scans (prettyAt depth v ++ cs) (tokens v ++ ts)

theorem apart_newline (depth : Nat) (cs : List Char) : Apart (newline depth ++ cs) := by
  simp [Apart, newline, isBlank]

theorem apart_cons {c : Char} (hc : isMark c) (cs : List Char) : Apart (c :: cs) := by
  simp [Apart, hc]

theorem scans_prettyItems {items : List Json} (hitems : ∀ v ∈ items, Printed v) (depth : Nat)
    {cs : List Char} {ts : List Token} (ha : Apart cs) (h : Scans cs ts) :
    Scans (prettyItems depth items ++ cs) (itemTokens items ++ ts) := by
  induction items with
  | nil => exact h
  | cons v items ih =>
    obtain ⟨hfirst, hrest⟩ := List.forall_mem_cons.1 hitems
    cases items with
    | nil =>
      rw [prettyItems, itemTokens, List.append_assoc]
      exact (hfirst depth cs ts ha h).newline depth
    | cons w vs =>
      rw [prettyItems, itemTokens]
      simp only [List.append_assoc, List.cons_append]
      have hcomma := (ih hrest).mark (c := ',') rfl
      exact (hfirst depth _ _ (apart_cons rfl _) hcomma).newline depth

theorem scans_prettyFields {fields : List (String × Json)} (hfields : ∀ f ∈ fields, Printed f.2)
    (depth : Nat) {cs : List Char} {ts : List Token} (ha : Apart cs) (h : Scans cs ts) :
    Scans (prettyFields depth fields ++ cs) (fieldTokens fields ++ ts) := by
  have hentry (k : String) {cs : List Char} {ts : List Token} (h : Scans cs ts) :
      Scans (newline depth ++ (quote k ++ ':' :: ' ' :: cs))
        (.scalar (.text k) :: .mark ':' :: ts) :=
    (((h.blank rfl).mark rfl).text k).newline depth
  induction fields with
  | nil => exact h
  | cons f fields ih =>
    obtain ⟨k, v⟩ := f
    obtain ⟨hfirst, hrest⟩ := List.forall_mem_cons.1 hfields
    cases fields with
    | nil =>
      rw [prettyFields, fieldTokens]
      simp only [List.append_assoc, List.cons_append]
      exact hentry k (hfirst depth cs ts ha h)
    | cons f fs =>
      rw [prettyFields, fieldTokens]
      simp only [List.append_assoc, List.cons_append]
      have hcomma := (ih hrest).mark (c := ',') rfl
      exact hentry k (hfirst depth _ _ (apart_cons rfl _) hcomma)

theorem Clean.printed {v : Json} (h : Clean v) : Printed v := by
  -- The indentation and what follows stay general, since they change inside a container.
  induction h with
  | null => exact fun _ _ _ ha hcs => hcs.null ha
  | bool b => exact fun _ _ _ ha hcs => hcs.bool ha b
  | natural n => exact fun _ _ _ ha hcs => hcs.ofNat ha n
  | text s => exact fun _ _ _ ha hcs => hcs.text s
  | @array items hv ih =>
    intro depth cs ts ha hcs
    have hclose : Scans (']' :: cs) (.mark ']' :: ts) := hcs.mark rfl
    cases items with
    | nil => exact hclose.mark rfl
    | cons v items =>
      have hitems := scans_prettyItems ih (depth + 1) (apart_newline depth _)
        (hclose.newline depth)
      simpa [prettyAt, tokens] using hitems.mark (c := '[') rfl
  | @object fields hv ih =>
    intro depth cs ts ha hcs
    have hclose : Scans ('}' :: cs) (.mark '}' :: ts) := hcs.mark rfl
    cases fields with
    | nil => exact hclose.mark rfl
    | cons f fields =>
      have hfields := scans_prettyFields ih (depth + 1) (apart_newline depth _)
        (hclose.newline depth)
      simpa [prettyAt, tokens] using hfields.mark (c := '{') rfl

theorem scan?_pretty {v : Json} (h : Clean v) : scan? v.pretty.toList = some (tokens v) := by
  have hs := h.printed 0 [] [] (by simp [Apart]) .nil []
  rwa [List.append_nil, List.append_nil, ← String.toList_ofList (l := prettyAt 0 v)] at hs

/-! ### Reading -/

/-- Wherever the tokens of a value stand, the value is put into the container that waits for it. -/
def Taken (v : Json) : Prop :=
  ∀ stack ts, (⟨stack, .value⟩ : Reader).run? (tokens v ++ ts) =
    (Reader.put? v stack).bind (·.run? ts)

namespace Reader
variable {stack : List Open}

theorem run?_itemTokens {items : List Json} (hitems : ∀ v ∈ items, Taken v) (hne : items ≠ [])
    (stack : List Open) (seen : List Json) (ts : List Token) :
    (⟨.array seen :: stack, .value⟩ : Reader).run? (itemTokens items ++ .mark ']' :: ts) =
      (put? (.array (seen.reverse ++ items)) stack).bind (·.run? ts) := by
  induction items generalizing seen with
  | nil => exact absurd rfl hne
  | cons v items ih =>
    obtain ⟨hfirst, hrest⟩ := List.forall_mem_cons.1 hitems
    cases items with
    | nil =>
      rw [itemTokens, hfirst]
      simp [put?, run?, step?, close?]
    | cons w vs =>
      rw [itemTokens, List.append_assoc, hfirst]
      have hnext := ih hrest (List.cons_ne_nil w vs) (v :: seen)
      simpa [put?, run?, step?] using hnext

theorem run?_fieldTokens {fields : List (String × Json)} (hfields : ∀ f ∈ fields, Taken f.2)
    (hne : fields ≠ []) (stack : List Open) (seen : List (String × Json)) (ts : List Token) :
    (⟨.object seen true :: stack, .key⟩ : Reader).run? (fieldTokens fields ++ .mark '}' :: ts) =
      (put? (.object (seen.reverse ++ fields)) stack).bind (·.run? ts) := by
  induction fields generalizing seen with
  | nil => exact absurd rfl hne
  | cons f fields ih =>
    obtain ⟨k, v⟩ := f
    obtain ⟨hfirst, hrest⟩ := List.forall_mem_cons.1 hfields
    cases fields with
    | nil =>
      simp [fieldTokens, run?, step?, key?, hfirst _ _, put?, close?]
    | cons f fs =>
      have hnext := ih hrest (List.cons_ne_nil f fs) ((k, v) :: seen)
      simpa [fieldTokens, run?, step?, key?, hfirst _ _, put?] using hnext

theorem run?_firstItem {t : Token} (ht : t ≠ .mark ']') (ts : List Token) :
    (⟨stack, .firstItem⟩ : Reader).run? (t :: ts) = (⟨stack, .value⟩ : Reader).run? (t :: ts) := by
  simp [run?, step?]

theorem exists_tokens (v : Json) : ∃ t ts, tokens v = t :: ts ∧ t ≠ .mark ']' := by
  cases v <;> simp [tokens]

theorem exists_itemTokens (v : Json) (items : List Json) :
    ∃ t ts, itemTokens (v :: items) = t :: ts ∧ t ≠ .mark ']' := by
  obtain ⟨t, ts, heq, ht⟩ := exists_tokens v
  cases items with
  | nil => exact ⟨t, ts, heq, ht⟩
  | cons w vs => exact ⟨t, _, by rw [itemTokens, heq, List.cons_append], ht⟩

theorem run?_firstKey (k : String) (ts : List Token) :
    (⟨stack, .firstKey⟩ : Reader).run? (.scalar (.text k) :: ts) =
      (⟨stack, .key⟩ : Reader).run? (.scalar (.text k) :: ts) := rfl

theorem exists_fieldTokens (f : String × Json) (fields : List (String × Json)) :
    ∃ k ts, fieldTokens (f :: fields) = .scalar (.text k) :: ts := by
  cases fields <;> exact ⟨f.1, _, rfl⟩

end Reader

open Reader in
theorem Clean.taken {v : Json} (h : Clean v) : Taken v := by
  induction h with
  | null => exact fun _ _ => rfl
  | bool b => exact fun _ _ => rfl
  | natural n => exact fun _ _ => rfl
  | text s => exact fun _ _ => rfl
  | @array items hv ih =>
    intro stack ts
    cases items with
    | nil => simp [tokens, itemTokens, run?, step?, value?, close?]
    | cons v items =>
      -- The first item stands where the array might also end, which no value begins like.
      obtain ⟨t, us, heq, ht⟩ := exists_itemTokens v items
      have hitems := run?_itemTokens ih (List.cons_ne_nil v items) stack [] ts
      rw [heq, List.cons_append, ← run?_firstItem ht] at hitems
      simpa [tokens, run?, step?, value?, heq] using hitems
  | @object fields hv ih =>
    intro stack ts
    cases fields with
    | nil => simp [tokens, fieldTokens, run?, step?, value?, close?]
    | cons f fields =>
      have hfields := run?_fieldTokens ih (List.cons_ne_nil f fields) stack [] ts
      obtain ⟨k, us, heq⟩ := exists_fieldTokens f fields
      rw [heq, List.cons_append, ← run?_firstKey] at hfields
      simpa [tokens, run?, step?, value?, heq] using hfields

theorem read?_pretty {v : Json} (h : Clean v) : read? v.pretty = some v := by
  have hrun : Reader.start.run? (tokens v) = some ⟨[], .finished v⟩ := by
    have htaken := h.taken [] []
    rwa [List.append_nil] at htaken
  rw [read?, scan?_pretty h, Option.bind_some, ofTokens?, hrun]

end Json

end DaoLedger
