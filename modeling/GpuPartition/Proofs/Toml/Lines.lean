/-
TOML documents line by line. A document says the statements of its lines (`Toml.Says`); texts of
whole lines that are put together say their statements together, with empty lines between them or
without, and the statements are what the reader reads (`Toml.Says.statements?`).
-/
import Mathlib.Data.List.Forall2
import GpuPartition.Proofs.Toml.Values
import GpuPartition.Toml.Document

namespace GpuPartition.Toml


/-! ## Lines -/

/-- The line is read as the statement. -/
structure IsLine (line : List Char) (s : Statement) : Prop where
  read : ∀ rest, statement? (line ++ '\n' :: rest) = some (s, '\n' :: rest)
  starts : ∃ c cs, line = c :: cs ∧ (StartsKey c ∨ c = '[')

/-- What a text of lines says. -/
inductive Says : List Char → List Statement → Prop
  | nil : Says [] []
  | blank {cs : List Char} {ss : List Statement} (h : Says cs ss) : Says ('\n' :: cs) ss
  | line {line cs : List Char} {s : Statement} {ss : List Statement} (hline : IsLine line s)
    (h : Says cs ss) : Says (line ++ '\n' :: cs) (s :: ss)

variable {cs cs' : List Char} {ss ss' : List Statement}

theorem Says.append (h : Says cs ss) (h' : Says cs' ss') : Says (cs ++ cs') (ss ++ ss') := by
  induction h with
  | nil => exact h'
  | blank _ ih => exact .blank ih
  | line hline _ ih =>
    rw [List.append_assoc]
    exact .line hline ih

/-- The statements of a text are read from it. -/
theorem Says.statements? (h : Says cs ss) {fuel : Nat} (hfuel : cs.length < fuel) :
    statements? fuel cs = some ss := by
  induction h generalizing fuel with
  | nil =>
    cases fuel with
    | zero => cases hfuel
    | succ fuel => rfl
  | blank _ ih =>
    cases fuel with
    | zero => cases hfuel
    | succ fuel => exact ih (Nat.lt_of_succ_lt_succ hfuel)
  | @line line cs s ss hline _ ih =>
    obtain ⟨c, cs', rfl, hc⟩ := hline.starts
    have hread := hline.read cs
    rw [List.length_append, List.length_cons, List.length_cons] at hfuel
    cases fuel with
    | zero => cases hfuel
    | succ fuel =>
      have hrest : Toml.statements? fuel cs = some ss := ih (by omega)
      have hskip : skipSpace (c :: cs' ++ '\n' :: cs) = c :: cs' ++ '\n' :: cs := by
        rcases hc with hc | rfl
        · exact hc.skipSpace _
        · rfl
      have hne : ∀ {d : Char}, isBareKeyChar d = false → '"' ≠ d → '\'' ≠ d → '[' ≠ d → c ≠ d := by
        intro d hbare hbasic hliteral hopen
        rcases hc with hc | rfl
        · exact hc.ne hbare hbasic hliteral
        · exact hopen
      have hnewline : newline? (c :: cs' ++ '\n' :: cs) = none :=
        newline?_cons (hne rfl (by decide) (by decide) (by decide))
          (hne rfl (by decide) (by decide) (by decide)) _
      have hend : lineEnd? ('\n' :: cs) = some cs := rfl
      rw [Toml.statements?, hskip]
      split
      next heq => cases heq
      next heq =>
        exact absurd (List.cons.inj heq).1 (hne rfl (by decide) (by decide) (by decide))
      next =>
        simp only [hnewline, hread, hend, hrest, Option.bind_eq_bind, Option.bind_some]
        rfl

theorem says_lines {lines : List String}
    (h : List.Forall₂ (fun line s => IsLine line.toList s) lines ss) :
    Says (String.join (lines.map (· ++ "\n"))).toList ss := by
  induction h with
  | nil => exact .nil
  | @cons line s lines ss hline _ ih =>
    rw [List.map_cons, String.join_cons, String.toList_append, String.toList_append,
      List.append_assoc]
    exact .line hline ih

/-- Texts with an empty line between them. -/
theorem says_intercalate {texts : List String} {sss : List (List Statement)}
    (h : List.Forall₂ (fun text ss => Says text.toList ss) texts sss) :
    Says ("\n".intercalate texts).toList sss.flatten := by
  induction h with
  | nil => exact .nil
  | @cons text ss texts sss htext hrest ih =>
    cases hrest with
    | nil => simpa using htext
    | @cons text' ss' texts sss htext' hrest =>
      rw [String.intercalate_cons_cons, String.toList_append, String.toList_append,
        List.append_assoc]
      exact htext.append (.blank ih)

/-- A key with its value is read as an assignment. -/
theorem isLine_assignment (name : String) {t : Tree} {text : String}
    (h : Reads (value? depthLimit) text t) :
    IsLine (keyPart name ++ " = " ++ text).toList (.assignment ⟨[], name, t⟩) where
  read := by
    intro rest
    have hkey : key? depthLimit ((key ([] ++ [name])).toList ++
        ' ' :: '=' :: ' ' :: (text.toList ++ '\n' :: rest)) =
          some (([], name), '=' :: ' ' :: (text.toList ++ '\n' :: rest)) :=
      key?_key (by decide) (by rintro c ⟨⟩; rfl) (show some '=' ≠ some '.' by decide)
    have hvalue : skipSpace (' ' :: (text.toList ++ '\n' :: rest)) =
        text.toList ++ '\n' :: rest := by
      obtain ⟨d, ds, hhead, hd⟩ := h.starts
      rw [hhead]
      exact hd.skipSpace _
    have hread := h.read '\n' rest (.inr (.inr rfl))
    have hassignment : assignment? (value? depthLimit) ((key ([] ++ [name])).toList ++
        ' ' :: '=' :: ' ' :: (text.toList ++ '\n' :: rest)) =
          some (⟨[], name, t⟩, '\n' :: rest) := by
      simp only [assignment?, hkey, hvalue, hread, Option.bind_eq_bind, Option.bind_some]
      rfl
    have hline : (keyPart name ++ " = " ++ text).toList ++ '\n' :: rest =
        (key ([] ++ [name])).toList ++ ' ' :: '=' :: ' ' :: (text.toList ++ '\n' :: rest) := by
      simp [toList_key_singleton]
    obtain ⟨c, cs, hhead, hc⟩ := key_head (show [] ++ [name] ≠ [] by simp)
    rw [hline]
    rw [hhead] at hassignment ⊢
    unfold statement?
    split
    next heq =>
      exact absurd (List.cons.inj heq).1 (hc.ne rfl (by decide) (by decide))
    next => rw [hassignment]; rfl
  starts := by
    obtain ⟨c, cs, hhead, hc⟩ := keyPart_head name
    exact ⟨c, _, by rw [String.toList_append, String.toList_append, hhead]; rfl, .inl hc⟩

/-- The line with the header of a table or of one more table of an array. -/
def headerText (array : Bool) (path : List String) : String :=
  if array then "[[" ++ key path ++ "]]" else "[" ++ key path ++ "]"

theorem isLine_header (array : Bool) {path : List String} (name : String)
    (h : path.length < depthLimit) :
    IsLine (headerText array (path ++ [name])).toList (.header ⟨array, path, name⟩) where
  read := by
    intro rest
    have hkey : ∀ rest, key? depthLimit ((key (path ++ [name])).toList ++ ']' :: rest) =
        some ((path, name), ']' :: rest) := fun rest =>
      key?_key h (by rintro c ⟨⟩; rfl) (show some ']' ≠ some '.' by decide)
    cases array with
    | true =>
      have hline : (headerText true (path ++ [name])).toList ++ '\n' :: rest =
          '[' :: '[' :: ((key (path ++ [name])).toList ++ ']' :: ']' :: '\n' :: rest) := by
        simp [headerText]
      simp only [hline, statement?, header?, hkey, Option.bind_eq_bind, Option.bind_some]
      rfl
    | false =>
      have hline : (headerText false (path ++ [name])).toList ++ '\n' :: rest =
          '[' :: ((key (path ++ [name])).toList ++ ']' :: '\n' :: rest) := by
        simp [headerText]
      obtain ⟨c, cs, hhead, hc⟩ := key_head (show path ++ [name] ≠ [] by simp)
      have hheader : header? ((key (path ++ [name])).toList ++ ']' :: '\n' :: rest) =
          some (⟨false, path, name⟩, '\n' :: rest) := by
        have hkey' := hkey ('\n' :: rest)
        rw [hhead] at hkey' ⊢
        unfold header?
        split
        next heq => exact absurd (List.cons.inj heq).1 (hc.ne rfl (by decide) (by decide))
        next =>
          simp only [hkey', Option.bind_eq_bind, Option.bind_some]
          rfl
      simp only [hline, statement?, hheader]
      rfl
  starts := by
    cases array <;> exact ⟨'[', _, by simp [headerText]; rfl, .inr rfl⟩

end GpuPartition.Toml
