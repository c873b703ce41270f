/-
Texts put in lower case and trimmed. `Char.toLower` changes the capital letters of ASCII and nothing
else, so what it makes of a character is known by its code (`toNat_toLower`). Lower case as Unicode
has it (`Lowered`) changes other characters too, but of ASCII only `i` and `k` can come of them.

Trimming takes the blanks at the ends away and nothing else (`exists_padding`, `trim_padded`).
-/
import Mathlib.Data.List.Forall2
import Mathlib.Data.List.TakeWhile
import GpuPartition.Text.Blank

namespace GpuPartition.Text

/-! ## Lower case -/

theorem toNat_toLower (c : Char) :
    c.toLower.toNat = if 65 ≤ c.toNat ∧ c.toNat ≤ 90 then c.toNat + 32 else c.toNat := by
  have hrange : c.val ≥ 'A'.val ∧ c.val ≤ 'Z'.val ↔ 65 ≤ c.toNat ∧ c.toNat ≤ 90 :=
    and_congr UInt32.le_iff_toNat_le UInt32.le_iff_toNat_le
  by_cases h : c.val ≥ 'A'.val ∧ c.val ≤ 'Z'.val
  · have hlower : c.toLower.toNat = (c.val + 32).toNat := congrArg Char.toNat (dif_pos h)
    have hadd : (c.val + 32).toNat = (c.val.toNat + 32) % 2 ^ 32 := UInt32.toNat_add _ _
    have hupper : c.val.toNat ≤ 90 := (hrange.1 h).2
    rw [hlower, hadd, if_pos (hrange.1 h)]
    change _ = c.val.toNat + 32
    omega
  · have hsame : c.toLower = c := dif_neg h
    rw [hsame, if_neg fun hupper => h (hrange.2 hupper)]

/-- A small letter comes of itself and of its capital. -/
theorem toLower_eq_iff {c small capital : Char} (hsmall : 97 ≤ small.toNat ∧ small.toNat ≤ 122)
    (hcapital : capital.toNat + 32 = small.toNat) :
    c.toLower = small ↔ c ∈ [small, capital] := by
  simp only [List.mem_cons, List.not_mem_nil, or_false, ← Char.toNat_inj, toNat_toLower]
  split <;> omega

/-- What stands before the letters comes of itself alone. -/
theorem toLower_eq_iff_of_lt {c d : Char} (hd : d.toNat < 65) : c.toLower = d ↔ c = d := by
  simp only [← Char.toNat_inj, toNat_toLower]
  split <;> omega

theorem toLower_of_not_upper {c : Char} (h : ¬ (65 ≤ c.toNat ∧ c.toNat ≤ 90)) : c.toLower = c := by
  rw [← Char.toNat_inj, toNat_toLower, if_neg h]

theorem map_toLower_eq_iff_of_lt {cs ds : List Char} (hds : ∀ d ∈ ds, d.toNat < 65) :
    cs.map Char.toLower = ds ↔ cs = ds := by
  induction ds generalizing cs with
  | nil => exact List.map_eq_nil_iff
  | cons d ds ih =>
    obtain ⟨hd, hds⟩ := List.forall_mem_cons.1 hds
    rw [List.map_eq_cons_iff]
    constructor
    · rintro ⟨c, cs', rfl, hc, hcs⟩
      rw [(toLower_eq_iff_of_lt hd).1 hc, (ih hds).1 hcs]
    · rintro rfl
      exact ⟨d, ds, rfl, (toLower_eq_iff_of_lt hd).2 rfl, (ih hds).2 rfl⟩

/-- What Unicode may make of a character in lower case: of an ASCII character what `Char.toLower`
does, and of any other at least one character, of ASCII only an `i` (of `İ`) or a `k` (of the Kelvin
sign). -/
inductive LowerCase (c : Char) : List Char → Prop
  | ascii (h : c.toNat < 128) : LowerCase c [c.toLower]
  | other {image : List Char} (h : 128 ≤ c.toNat) (some : image ≠ [])
    (ascii : ∀ d ∈ image, d.toNat < 128 → d = 'i' ∨ d = 'k') : LowerCase c image

/-- The second text is the first in lower case, in the sense of Unicode. -/
def Lowered (cs ds : List Char) : Prop := ∃ images, List.Forall₂ LowerCase cs images ∧
  ds = images.flatten

/-! ## Blanks -/

/-- The characters are blank. -/
def Blank (cs : List Char) : Prop := ∀ c ∈ cs, isBlank c = true

instance (cs : List Char) : Decidable (Blank cs) :=
  decidable_of_iff (cs.all isBlank = true) List.all_eq_true

theorem blank_reverse {cs : List Char} : Blank cs.reverse ↔ Blank cs := by
  simp only [Blank, List.mem_reverse]

theorem exists_padding (cs : List Char) :
    ∃ before after, cs = before ++ trim cs ++ after ∧ Blank before ∧ Blank after := by
  have htake (l : List Char) : Blank (l.takeWhile isBlank) := fun c hc => List.mem_takeWhile_imp hc
  refine ⟨cs.takeWhile isBlank, ((cs.dropWhile isBlank).reverse.takeWhile isBlank).reverse, ?_,
    htake _, blank_reverse.2 (htake _)⟩
  rw [trim, List.append_assoc, ← List.reverse_append, List.takeWhile_append_dropWhile,
    List.reverse_reverse, List.takeWhile_append_dropWhile]

theorem dropWhile_padded {before cs : List Char} (hbefore : Blank before)
    (hfirst : ∀ c ∈ cs.head?, isBlank c = false) : (before ++ cs).dropWhile isBlank = cs := by
  rw [List.dropWhile_append_of_pos hbefore]
  cases cs with
  | nil => rfl
  | cons c cs => exact List.dropWhile_cons_of_neg (by rw [hfirst c rfl]; exact Bool.false_ne_true)

theorem trim_padded {before core after : List Char} (hbefore : Blank before) (hafter : Blank after)
    (hfirst : ∀ c ∈ core.head?, isBlank c = false) (hlast : ∀ c ∈ core.getLast?, isBlank c = false)
    (hne : core ≠ []) : trim (before ++ core ++ after) = core := by
  have hhead : (core ++ after).head? = core.head? := List.head?_append_of_ne_nil core hne
  rw [trim, List.append_assoc, dropWhile_padded hbefore (hhead ▸ hfirst), List.reverse_append,
    dropWhile_padded (blank_reverse.2 hafter) (by rwa [List.head?_reverse]), List.reverse_reverse]

end GpuPartition.Text
