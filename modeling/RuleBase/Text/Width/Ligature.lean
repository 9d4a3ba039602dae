import RuleBase.Text.Width.Column

/-!
# Ligatures

Pairs of letters that are written as one sign and take less room than the letters would. A text is
read from its end, so the letter that comes second is met first: it opens a ligature, and the letter
before it completes it.

* `Ligature.opened`: the ligature that a letter may be the end of;
* `Ligature.before`: what a character in front of an open ligature adds.
-/

namespace RuleBase.Text

/-- The Arabic letters of the form of alef. -/
def arabicAlef : Ranges :=
  [(0x622, 0x623), (0x625, 0x625), (0x627, 0x627), (0x671, 0x673), (0x675, 0x675), (0x773, 0x774),
    (0x870, 0x882)]

/-- The Arabic letters of the form of lam. -/
def arabicLam : Ranges :=
  [(0x644, 0x644), (0x6B5, 0x6B8), (0x76A, 0x76A), (0x8A6, 0x8A6), (0x8C7, 0x8C7)]

/-- Invisible characters and marks that part the Arabic letters on their sides. -/
def arabicParting : Ranges :=
  [(0x605, 0x605), (0x890, 0x891), (0x8E2, 0x8E2), (0x9BE, 0x9BE), (0x9D7, 0x9D7), (0xB3E, 0xB3E),
    (0xB57, 0xB57), (0xBBE, 0xBBE), (0xBD7, 0xBD7), (0xCC0, 0xCC0), (0xCC2, 0xCC2), (0xCC7, 0xCC8),
    (0xCCA, 0xCCB), (0xCD5, 0xCD6), (0xD3E, 0xD3E), (0xD4E, 0xD4E), (0xD57, 0xD57), (0xDCF, 0xDCF),
    (0xDDF, 0xDDF), (0x1160, 0x11FF), (0x1715, 0x1715), (0x1734, 0x1734), (0x180E, 0x180E),
    (0x1B35, 0x1B35), (0x1B3B, 0x1B3B), (0x1B3D, 0x1B3D), (0x1B43, 0x1B44), (0x1BAA, 0x1BAA),
    (0x1BF2, 0x1BF3), (0x200C, 0x200D), (0x2065, 0x2069), (0x302E, 0x302F), (0x3164, 0x3164),
    (0xA8FA, 0xA8FA), (0xA953, 0xA953), (0xA9C0, 0xA9C0), (0xD7B0, 0xD7C6), (0xD7CB, 0xD7FB),
    (0xFFA0, 0xFFA0), (0xFFF0, 0xFFF8), (0x111C0, 0x111C0), (0x111C2, 0x111C3), (0x11235, 0x11235),
    (0x1133E, 0x1133E), (0x1134D, 0x1134D), (0x11357, 0x11357), (0x113B8, 0x113B8),
    (0x113C2, 0x113C2), (0x113C5, 0x113C5), (0x113C7, 0x113C9), (0x113CF, 0x113CF),
    (0x113D1, 0x113D1), (0x114B0, 0x114B0), (0x114BD, 0x114BD), (0x115AF, 0x115AF),
    (0x116B6, 0x116B6), (0x11930, 0x11930), (0x1193D, 0x1193D), (0x1193F, 0x1193F),
    (0x11941, 0x11941), (0x11A3A, 0x11A3A), (0x11A84, 0x11A89), (0x11D46, 0x11D46),
    (0x11F02, 0x11F02), (0x11F41, 0x11F41), (0x16FF0, 0x16FF1), (0x1D165, 0x1D166),
    (0x1D16D, 0x1D172), (0xE0000, 0xE0000), (0xE0002, 0xE001F), (0xE0080, 0xE00FF),
    (0xE01F0, 0xE0FFF)]

/-- The Khmer letters that have a form below another letter. -/
def khmerSubjoined : Ranges :=
  [(0x1780, 0x1782), (0x1784, 0x1787), (0x1789, 0x178C), (0x178E, 0x1793), (0x1795, 0x1798),
    (0x179B, 0x179D), (0x17A0, 0x17A0), (0x17A2, 0x17A2), (0x17A7, 0x17A7), (0x17AB, 0x17AC),
    (0x17AF, 0x17AF)]

/-- The Tifinagh consonants. -/
def tifinaghConsonant : Ranges :=
  [(0x2D31, 0x2D65), (0x2D6F, 0x2D6F)]

/-- Selectors and invisible marks that may stand inside a ligature. -/
def ligatureTransparent : Ranges :=
  [(0x34F, 0x34F), (0x17B4, 0x17B5), (0x180B, 0x180D), (0x180F, 0x180F), (0xFE00, 0xFE0F),
    (0xE0100, 0xE01EF)]

/-- The end of a ligature; the flag says that a joiner came before it. -/
inductive Ligature where
  /-- An Arabic alef, which wants a lam. -/
  | alef
  /-- A Hebrew lamed, which wants an alef and a joiner. -/
  | lamed (joined : Bool)
  /-- A Buginese ya, which wants the vowel sign i and a joiner. -/
  | ya (joined : Bool)
  /-- A Buginese vowel sign i and a ya, which want the letter a. -/
  | vowelYa
  /-- A Tifinagh consonant, which wants another one. -/
  | tifinagh (joined : Bool)
  /-- A Tifinagh consonant with the sign that joins it, which wants another consonant. -/
  | tifinaghJoiner
  /-- A second Lisu tone, which wants a first one. -/
  | lisuTone
  /-- An Orkhon letter i, which wants a consonant and a joiner. -/
  | orkhonI (joined : Bool)
  /-- A Khmer letter, which wants the sign that puts it below another. -/
  | khmer
  /-- A Kirat Rai vowel sign e, which wants a part before it. -/
  | kiratE
  /-- A Kirat Rai vowel sign ai, which wants a part before it. -/
  | kiratAi
  deriving DecidableEq, Repr

namespace Ligature

/-- The ligature that a character may be the end of. -/
def opened (c : Char) : Option Ligature :=
  if c.toNat < 0x5DC then none
  else if c.toNat = 0x5DC then some (.lamed false)
  else if arabicAlef.contains c then some .alef
  else if khmerSubjoined.contains c then some .khmer
  else if c.toNat = 0x1A10 then some (.ya false)
  else if tifinaghConsonant.contains c then some (.tifinagh false)
  else if c.toNat = 0xA4FC ∨ c.toNat = 0xA4FD then some .lisuTone
  else if c.toNat = 0x10C03 then some (.orkhonI false)
  else if c.toNat = 0x16D67 then some .kiratE
  else if c.toNat = 0x16D68 then some .kiratAi
  else none

/-- Whether a selector leaves a ligature open. -/
def survivesSelector : Ligature → Bool
  | .kiratE | .kiratAi => false
  | _ => true

/-- Whether a joiner, and what is transparent to ligatures, leaves a ligature open. -/
def survivesJoiner : Ligature → Bool
  | .alef | .kiratE | .kiratAi => false
  | _ => true

/-- A ligature with a joiner before it. -/
def joined : Ligature → Ligature
  | .lamed _ => .lamed true
  | .ya _ => .ya true
  | .tifinagh _ => .tifinagh true
  | .orkhonI _ => .orkhonI true
  | l => l

/-- What a letter in front of an open ligature adds to the columns, if it is part of it, and what is
still open then. -/
def letterBefore (l : Ligature) (c : Char) : Option (Int × Option Ligature) :=
  match l with
  | .alef =>
    if arabicLam.contains c then some (0, none)
    else if charWidth c = 0 && !arabicParting.contains c then some (0, some .alef)
    else none
  | .lamed joined => if joined && c.toNat = 0x5D0 then some (0, none) else none
  | .ya joined => if joined && c.toNat = 0x1A17 then some (0, some .vowelYa) else none
  | .vowelYa => if c.toNat = 0x1A15 then some (0, none) else none
  | .tifinagh joined =>
    if c.toNat = 0x2D7F then some (1, some .tifinaghJoiner)
    else if joined && tifinaghConsonant.contains c then some (0, none)
    else none
  | .tifinaghJoiner => if tifinaghConsonant.contains c then some (-1, none) else none
  | .lisuTone => if 0xA4F8 ≤ c.toNat && c.toNat ≤ 0xA4FB then some (0, none) else none
  | .orkhonI joined => if joined && c.toNat = 0x10C32 then some (0, none) else none
  | .khmer => if c.toNat = 0x17D2 then some (-1, none) else none
  | .kiratE =>
    if c.toNat = 0x16D63 || c.toNat = 0x16D69 then some (0, none)
    else if c.toNat = 0x16D67 then some (0, some .kiratAi)
    else if c.toNat = 0x16D68 then some (1, some .kiratE)
    else none
  | .kiratAi => if c.toNat = 0x16D63 then some (0, none) else none

/-- What a character in front of an open ligature adds to the columns, if it leaves it open or is
part of it, and what is still open then. -/
def before (l : Ligature) (c : Char) : Option (Int × Option Ligature) :=
  if l.survivesJoiner && c.toNat = 0x200D then some (0, some l.joined)
  else if l.survivesJoiner && ligatureTransparent.contains c then some (0, some l)
  else l.letterBefore c

end Ligature

end RuleBase.Text
