/-
Keys of TOML read back. A part of a key is bare or in quotes, and a key is its parts with dots
between them; it is read as these parts, provided that what follows does not go on with it
(`Toml.key?_key`).
-/
import GpuPartition.Proofs.Toml.Strings

namespace GpuPartition.Toml

variable {c : Char} {cs rest : List Char}

/-- The first character of a part of a key. -/
def StartsKey (c : Char) : Prop := isBareKeyChar c = true ∨ c = '"' ∨ c = '\''

theorem StartsKey.ne {d : Char} (h : StartsKey c) (hbare : isBareKeyChar d = false)
    (hbasic : '"' ≠ d) (hliteral : '\'' ≠ d) : c ≠ d := by
  rintro rfl
  rcases h with h | h | h
  · exact absurd (hbare.symm.trans h) (by decide)
  · exact hbasic h.symm
  · exact hliteral h.symm

theorem StartsKey.skipSpace (h : StartsKey c) (cs : List Char) : skipSpace (c :: cs) = c :: cs := by
  have hblank : c ≠ ' ' := h.ne rfl (by decide) (by decide)
  have htab : c ≠ '\t' := h.ne rfl (by decide) (by decide)
  simp [Toml.skipSpace, isSpace, hblank, htab]

theorem keyPart_head (s : String) : ∃ c cs, (keyPart s).toList = c :: cs ∧ StartsKey c := by
  rw [keyPart]
  split
  next h =>
    simp only [Bool.and_eq_true, List.all_eq_true] at h
    cases hs : s.toList with
    | nil => simp [hs] at h
    | cons c cs => exact ⟨c, cs, rfl, .inl (h.2 c (hs ▸ List.mem_cons_self))⟩
  split
  · exact ⟨_, _, toList_quoteBasic _, .inr (.inl rfl)⟩
  split
  · exact ⟨_, _, toList_quoteLiteral _, .inr (.inr rfl)⟩
  · exact ⟨_, _, toList_quoteBasic _, .inr (.inl rfl)⟩

theorem simpleKey?_quoteBasic (cs rest : List Char) :
    simpleKey? ((quoteBasic cs).toList ++ rest) = some (String.ofList cs, rest) := by
  rw [toList_quoteBasic, List.cons_append, List.append_assoc, List.singleton_append, simpleKey?,
    basicBody_quoteBasic]
  rfl

theorem simpleKey?_bare (hne : cs ≠ []) (hbare : ∀ c ∈ cs, isBareKeyChar c = true)
    (hrest : ∀ c ∈ rest.head?, isBareKeyChar c = false) :
    simpleKey? (cs ++ rest) = some (String.ofList cs, rest) := by
  have hspan : (cs ++ rest).takeWhile isBareKeyChar = cs ∧
      (cs ++ rest).dropWhile isBareKeyChar = rest := by
    rw [List.takeWhile_append_of_pos hbare, List.dropWhile_append_of_pos hbare]
    cases rest with
    | nil => simp
    | cons c rest => simp [hrest c rfl]
  cases cs with
  | nil => exact absurd rfl hne
  | cons c cs =>
    have hc := hbare c List.mem_cons_self
    unfold simpleKey?
    split
    next heq => exact absurd ((List.cons.inj heq).1 ▸ hc) (by decide)
    next heq => exact absurd ((List.cons.inj heq).1 ▸ hc) (by decide)
    next => rw [hspan.1, hspan.2]

theorem simpleKey?_keyPart (s : String) (hrest : ∀ c ∈ rest.head?, isBareKeyChar c = false) :
    simpleKey? ((keyPart s).toList ++ rest) = some (s, rest) := by
  have hback : some (String.ofList s.toList, rest) = some (s, rest) := by rw [String.ofList_toList]
  rw [keyPart, ← hback]
  split
  next h =>
    simp only [Bool.and_eq_true, List.all_eq_true] at h
    exact simpleKey?_bare (fun hnil => by simp [hnil] at h) h.2 hrest
  split
  next => exact simpleKey?_quoteBasic _ rest
  split
  next h =>
    simp only [Bool.and_eq_true, Bool.not_eq_true', Bool.or_eq_false_iff, decide_eq_true_eq] at h
    rw [toList_quoteLiteral, List.cons_append, List.append_assoc, List.singleton_append, simpleKey?,
      literalBody_plain rest (plain_of_traits h.1.1 h.1.2 h.2)]
    rfl
  next => exact simpleKey?_quoteBasic _ rest

theorem toList_key_singleton (name : String) : (key [name]).toList = (keyPart name).toList := by
  simp [key]

theorem toList_key_cons (part : String) {path : List String} (h : path ≠ []) :
    (key (part :: path)).toList = (keyPart part).toList ++ '.' :: (key path).toList := by
  obtain ⟨q, qs, rfl⟩ := List.exists_cons_of_ne_nil h
  simp [key, String.intercalate_cons_cons]

theorem key_head {path : List String} (h : path ≠ []) :
    ∃ c cs, (key path).toList = c :: cs ∧ StartsKey c := by
  match path, h with
  | [name], _ =>
    rw [toList_key_singleton]
    exact keyPart_head name
  | part :: q :: qs, _ =>
    obtain ⟨c, cs, hhead, hc⟩ := keyPart_head part
    exact ⟨c, _, by rw [toList_key_cons part (List.cons_ne_nil q qs), hhead, List.cons_append], hc⟩

theorem skipSpace_key {path : List String} (h : path ≠ []) (rest : List Char) :
    skipSpace ((key path).toList ++ rest) = (key path).toList ++ rest := by
  obtain ⟨c, cs, hhead, hc⟩ := key_head h
  rw [hhead]
  exact hc.skipSpace _

/-- **Keys.** A key is read as its parts, the last of them apart. -/
theorem key?_key {path : List String} {name : String} {most : Nat} (hmost : path.length < most)
    (hrest : ∀ c ∈ rest.head?, isBareKeyChar c = false)
    (hdot : (skipSpace rest).head? ≠ some '.') :
    key? most ((key (path ++ [name])).toList ++ rest) = some ((path, name), skipSpace rest) := by
  induction path generalizing most with
  | nil =>
    cases most with
    | zero => cases hmost
    | succ most =>
      rw [key?, skipSpace_key (by simp), List.nil_append, toList_key_singleton,
        simpleKey?_keyPart name hrest]
      simp only [Option.bind_eq_bind, Option.bind_some]
      split
      next heq => exact absurd (by rw [heq]; rfl) hdot
      next => rfl
  | cons part path ih =>
    cases most with
    | zero => cases hmost
    | succ most =>
      have hread := ih (Nat.lt_of_succ_lt_succ hmost)
      rw [key?, skipSpace_key (by simp), List.cons_append, toList_key_cons part (by simp),
        List.append_assoc, simpleKey?_keyPart part (by rintro c ⟨⟩; rfl)]
      have hskip : ∀ cs, skipSpace ('.' :: cs) = '.' :: cs := fun cs => rfl
      simp only [List.cons_append, Option.bind_eq_bind, Option.bind_some, hskip, hread]
      rfl

end GpuPartition.Toml
