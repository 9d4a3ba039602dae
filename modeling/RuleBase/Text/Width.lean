import RuleBase.Text.Width.Ligature
import RuleBase.Text.Width.Picture

/-!
# Display widths

How many columns of a terminal a text takes. Each character has a width of its own, but a selector
chooses how the character before it is shown, and ligatures and pictures take less room than their
parts. What a character takes thus depends on what follows it, so a text is read from its end.

* `Following`: what a character has to know of the text after it;
* `Following.before`: what a character adds to the columns, and what one before it has to know;
* `width`: the columns of a text.
-/

namespace RuleBase.Text

/-- A choice of how the character before is shown. -/
inductive Selector where
  /-- As an emoji. -/
  | emoji
  /-- As text. -/
  | text
  /-- As a quotation mark of two columns. -/
  | wideQuote
  deriving DecidableEq, Repr

/-- The choice that a character makes. -/
def Selector.ofChar? (c : Char) : Option Selector :=
  if c.toNat = 0xFE0F then some .emoji
  else if c.toNat = 0xFE0E then some .text
  else if c.toNat = 0xFE01 then some .wideQuote
  else none

/-- The end of something that a character before it may belong to. -/
inductive Opened where
  /-- Nothing of that kind. -/
  | nothing
  /-- The end of a ligature. -/
  | ligature (l : Ligature)
  /-- The end of a picture. -/
  | picture (p : Picture)
  deriving DecidableEq, Repr

/-- What a character has to know of the text after it. -/
structure Following where
  /-- What the text after the character starts with. -/
  opened : Opened
  /-- The choice that the next character makes for it. -/
  selector : Option Selector
  deriving DecidableEq, Repr

/-- What a character at the end of a text knows. -/
def Following.nothing : Following := ⟨.nothing, none⟩

namespace Opened

/-- What a character on its own may be the end of. -/
def ofChar (c : Char) : Opened :=
  match Ligature.opened c, Picture.opened c with
  | some l, _ => .ligature l
  | none, some p => .picture p
  | none, none => .nothing

/-- What a choice that came to nothing leaves open. -/
def afterSelector : Opened → Opened
  | .ligature l => if l.survivesSelector then .ligature l else .nothing
  | _ => .nothing

/-- What is open behind a selector. -/
def withSelector (o : Opened) : Selector → Opened
  | .emoji =>
    match o with
    | .picture p => if p.isJoined then .picture p else .nothing
    | o => o.afterSelector
  | _ => o.afterSelector

/-- How many columns a character that is shown as an emoji adds. -/
def emojiWidth : Opened → Int
  | .picture p => if p.isJoined then 0 else 2
  | _ => 2

/-- What a character adds to the columns as a part of what is open after it, and what is open with
it. -/
def before? : Opened → Char → Option (Int × Opened)
  | .nothing, _ => none
  | .ligature l, c => (l.before c).map fun (w, l) => (w, l.elim .nothing .ligature)
  | .picture p, c => (p.before c).map fun (w, p) => (w, .picture p)

end Opened

/-- What a character that no choice applies to adds to the columns, and what is known before it. -/
def Following.plainBefore (o : Opened) (c : Char) : Int × Following :=
  match Selector.ofChar? c, o.before? c with
  | some s, _ => (0, ⟨o.withSelector s, some s⟩)
  | none, some (w, o) => (w, ⟨o, none⟩)
  | none, none => (charWidth c, ⟨Opened.ofChar c, none⟩)

/-- Whether a character is a quotation mark that may take two columns. -/
def isQuote (c : Char) : Bool :=
  c.toNat = 0x2018 || c.toNat = 0x2019 || c.toNat = 0x201C || c.toNat = 0x201D

/-- What a character adds to the columns, and what is known before it. -/
def Following.before (f : Following) (c : Char) : Int × Following :=
  match f.selector with
  | none => plainBefore f.opened c
  | some .emoji =>
    if emojiSelectable.contains c then (f.opened.emojiWidth, ⟨.picture .emoji, none⟩)
    else plainBefore f.opened.afterSelector c
  | some .text => if textSelectable.contains c then (1, .nothing) else plainBefore f.opened c
  | some .wideQuote => if isQuote c then (2, .nothing) else plainBefore f.opened c

/-- How many columns a text takes, and what is known before it. -/
def measure (text : List Char) : Int × Following :=
  text.foldr (fun c (w, f) => ((f.before c).1 + w, (f.before c).2)) (0, .nothing)

/-- How many columns a text takes. -/
def width (text : List Char) : Nat := (measure text).1.toNat

@[simp]
theorem width_nil : width [] = 0 := rfl

end RuleBase.Text
