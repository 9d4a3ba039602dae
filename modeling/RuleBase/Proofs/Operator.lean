import Mathlib.Data.List.Basic
import Mathlib.Order.BooleanAlgebra.Set
import RuleBase.Operator

/-!
# Operators

A comparison is written between blanks, perhaps after a `not `. A negation flag turns the operator
that a symbol denotes round, whether the symbol comes with a negation of its own or not. What it is
turned into holds exactly where it did not hold, even though some comparisons have complements among
the comparisons and others only a flag.

* `Evaluator.Written`, **`Operator.determine?_eq_some_iff`**: the symbols that denote an operator;
* `Operator.negate`, **`Operator.determine?_not`**: an operator turned round;
* **`Operator.denote_negate`**: turned round, it holds everywhere else.
-/

namespace RuleBase

/-! ## Written symbols -/

/-- How a comparison may be written: between blanks, perhaps after one `not ` and more blanks. -/
inductive Evaluator.Written (e : Evaluator) : List Char → Bool → Prop where
  | plain {before after : List Char} (hbefore : ∀ c ∈ before, Text.isBlank c)
      (hafter : ∀ c ∈ after, Text.isBlank c) :
      e.Written (before ++ e.symbol.toList ++ after) false
  | negated {before between after : List Char} (hbefore : ∀ c ∈ before, Text.isBlank c)
      (hbetween : ∀ c ∈ between, Text.isBlank c) (hafter : ∀ c ∈ after, Text.isBlank c) :
      e.Written (before ++ ("not ".toList ++ (between ++ e.symbol.toList)) ++ after) true

namespace Evaluator

variable (e : Evaluator)

theorem symbol_ne_nil : e.symbol.toList ≠ [] := by cases e <;> decide

theorem isBlank_head_symbol : ∀ c ∈ e.symbol.toList.head?, Text.isBlank c = false := by
  cases e <;> rintro c ⟨⟩ <;> decide

theorem isBlank_getLast_symbol : ∀ c ∈ e.symbol.toList.getLast?, Text.isBlank c = false := by
  cases e <;> rintro c ⟨⟩ <;> decide

theorem isPrefixOf?_symbol : "not ".toList.isPrefixOf? e.symbol.toList = none := by
  cases e <;> decide

theorem ofSymbol?_symbol : ofSymbol? e.symbol.toList = some e := by cases e <;> decide

theorem ofSymbol?_eq_some_iff {text : List Char} : ofSymbol? text = some e ↔
    text = e.symbol.toList := by
  constructor
  · intro h
    have hfound := List.find?_some h
    exact (beq_iff_eq.mp hfound).symm
  · rintro rfl
    exact e.ofSymbol?_symbol

/-- What is left without blanks and one `not ` is a comparison exactly if one has been written. -/
theorem unprefixed_eq_iff {text : List Char} {negated : Bool} :
    Operator.unprefixed text = (e.symbol.toList, negated) ↔ e.Written text negated := by
  constructor
  · intro h
    obtain ⟨before, after, hbefore, hafter, htext⟩ := Text.exists_eq_append_trim text
    rw [Operator.unprefixed] at h
    cases hnot : "not ".toList.isPrefixOf? (Text.trim text) with
    | none =>
      rw [hnot] at h
      obtain ⟨hsymbol, rfl⟩ := Prod.mk.inj h
      rw [htext, hsymbol]
      exact .plain hbefore hafter
    | some rest =>
      rw [hnot] at h
      obtain ⟨hsymbol, rfl⟩ := Prod.mk.inj h
      obtain ⟨between, hbetween, hrest⟩ := Text.exists_eq_append_trimStart rest
      rw [htext, ← List.append_eq_of_isPrefixOf?_eq_some hnot, hrest, hsymbol]
      exact .negated hbefore hbetween hafter
  · rintro (⟨hbefore, hafter⟩ | ⟨hbefore, hbetween, hafter⟩)
    · rw [Operator.unprefixed, Text.trim_append hbefore hafter e.isBlank_head_symbol
        e.isBlank_getLast_symbol e.symbol_ne_nil, e.isPrefixOf?_symbol]
    · rw [Operator.unprefixed, Text.trim_append hbefore hafter (by rintro c ⟨⟩; rfl) ?_ (by simp),
        List.isPrefixOf?_eq_some_iff_append_eq.mpr rfl]
      · exact congrArg (·, true) (Text.trimStart_append hbetween e.isBlank_head_symbol)
      · rw [List.getLast?_append, List.getLast?_append,
          List.getLast?_eq_some_getLast e.symbol_ne_nil]
        exact fun c hc => e.isBlank_getLast_symbol c
          ((List.getLast?_eq_some_getLast e.symbol_ne_nil).trans hc)

end Evaluator

/-- **The operators that a symbol denotes**: a comparison that is written, under the flag and the
`not ` together. -/
theorem Operator.determine?_eq_some_iff {symbol : String} {negated : Bool} {o : Operator} :
    determine? symbol negated = some o ↔
      ∃ e flipped, e.Written symbol.toList flipped ∧ o = fold e (negated ^^ flipped) := by
  simp only [determine?, Option.map_eq_some_iff, Evaluator.ofSymbol?_eq_some_iff]
  constructor
  · rintro ⟨e, hsymbol, rfl⟩
    exact ⟨e, _, e.unprefixed_eq_iff.mp (Prod.ext hsymbol rfl), rfl⟩
  · rintro ⟨e, flipped, hwritten, rfl⟩
    have hsplit := e.unprefixed_eq_iff.mpr hwritten
    exact ⟨e, congrArg Prod.fst hsplit, by rw [hsplit]⟩

/-! ## Negation -/

/-- Where the comparisons hold: four of them exactly where four others do not. -/
structure Interpretation (α : Type*) where
  holds : Evaluator → Set α
  notEqual_eq : holds .notEqual = (holds .equal)ᶜ
  greaterOrEqual_eq : holds .greaterOrEqual = (holds .less)ᶜ
  greater_eq : holds .greater = (holds .lessOrEqual)ᶜ
  excludes_eq : holds .excludes = (holds .contains)ᶜ

/-- A comparison with a complement holds exactly where that does not. -/
theorem Interpretation.holds_complement {α : Type*} (I : Interpretation α) {e c : Evaluator}
    (h : e.complement? = some c) : I.holds c = (I.holds e)ᶜ := by
  cases e <;> cases h
  · exact I.notEqual_eq
  · rw [I.notEqual_eq, compl_compl]
  · exact I.greaterOrEqual_eq
  · exact I.greater_eq
  · rw [I.greater_eq, compl_compl]
  · rw [I.greaterOrEqual_eq, compl_compl]
  · exact I.excludes_eq
  · rw [I.excludes_eq, compl_compl]

/-- Texts in comparison with texts, in dictionary order. A text matches itself, belongs to the texts
that it is a part of, and sounds like those that differ in upper and lower case. -/
def Interpretation.texts : Interpretation (List Char × List Char) where
  holds
    | .equal => {t | t.1 = t.2}
    | .notEqual => {t | t.1 ≠ t.2}
    | .less => {t | List.Lex (· < ·) t.1 t.2}
    | .lessOrEqual => {t | ¬List.Lex (· < ·) t.2 t.1}
    | .greater => {t | List.Lex (· < ·) t.2 t.1}
    | .greaterOrEqual => {t | ¬List.Lex (· < ·) t.1 t.2}
    | .contains => {t | t.2 <:+: t.1}
    | .excludes => {t | ¬t.2 <:+: t.1}
    | .matches => {t | t.1 = t.2}
    | .memberOf => {t | t.1 <:+: t.2}
    | .soundsLike => {t | t.1.map Char.toLower = t.2.map Char.toLower}
  notEqual_eq := rfl
  greaterOrEqual_eq := rfl
  greater_eq := (compl_compl _).symm
  excludes_eq := rfl

namespace Operator

/-- An operator turned round. -/
def negate (o : Operator) : Operator := fold o.evaluator (!o.negated)

theorem negate_fold (e : Evaluator) (negated : Bool) :
    (fold e negated).negate = fold e (!negated) := by
  cases hcomplement : e.complement? with
  | none => cases negated <;> simp [fold, negate, hcomplement]
  | some c =>
    have hback := Evaluator.complement?_symm hcomplement
    cases negated <;> simp [fold, negate, hcomplement, hback]

/-- **A negation flag turns the operator of any symbol round.** -/
theorem determine?_not (symbol : String) (negated : Bool) :
    determine? symbol (!negated) = (determine? symbol negated).map negate := by
  simp only [determine?, Option.map_map, Function.comp_def, negate_fold, Bool.not_xor]

variable {α : Type*} (I : Interpretation α)

/-- Where an operator holds. -/
def denote (o : Operator) : Set α :=
  if o.negated then (I.holds o.evaluator)ᶜ else I.holds o.evaluator

theorem denote_fold (e : Evaluator) (negated : Bool) :
    (fold e negated).denote I = if negated then (I.holds e)ᶜ else I.holds e := by
  cases hcomplement : e.complement? with
  | none => cases negated <;> simp [fold, denote, hcomplement]
  | some c =>
    have hholds := I.holds_complement hcomplement
    cases negated <;> simp [fold, denote, hcomplement, hholds]

/-- **Turned round, an operator holds exactly where it did not.** -/
theorem denote_negate (o : Operator) : o.negate.denote I = (o.denote I)ᶜ := by
  rw [negate, denote_fold, denote]
  cases o.negated <;> simp

end Operator

end RuleBase
