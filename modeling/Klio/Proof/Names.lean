import Klio.Proof.PutSpec

/-!
# Names of segments and their paths

* `archivePath_segment`, `archivePath_partialSegment`: a segment and its `.partial` file lie
  side by side in the directory of their first sixteen digits.
* `stagingPath_eq`, `finalPath_eq`: the paths of a stream in terms of the name of its first
  block. A name that already carries the suffix is its own staging file, and its final path
  is that of the segment.
-/

namespace Klio

open List

def IsSegment (x : Name) : Prop := hexRun 24 x = true

instance (x : Name) : Decidable (IsSegment x) := inferInstanceAs (Decidable (_ = true))

variable {x : Name}

theorem IsSegment.length (h : IsSegment x) : x.length = 24 := by
  have := (Bool.and_eq_true_iff.1 h).1
  exact beq_iff_eq.1 this

theorem IsSegment.hex (h : IsSegment x) : ∀ c ∈ x, isHexDigit c = true :=
  all_eq_true.1 (Bool.and_eq_true_iff.1 h).2

theorem IsSegment.not_mem (h : IsSegment x) {c : Char} (hc : isHexDigit c = false) : c ∉ x := by
  intro hm
  have := h.hex c hm
  rw [hc] at this
  cases this

/-! ## Suffixes -/

theorem hasSuffix_iff {s suffix : Name} : hasSuffix s suffix = true ↔ suffix <:+ s := isSuffixOf_iff_suffix

theorem trimSuffix_append (x suffix : Name) : trimSuffix (x ++ suffix) suffix = x := by
  unfold trimSuffix
  rw [if_pos (hasSuffix_iff.2 (suffix_append _ _)), length_append, Nat.add_sub_cancel, take_left]

theorem trimPartialSuffix_append (x : Name) : trimPartialSuffix (x ++ partialSuffix) = x := trimSuffix_append _ _

theorem withPartialSuffix_of_not (h : ¬ partialSuffix <:+ x) : withPartialSuffix x = x ++ partialSuffix := by
  unfold withPartialSuffix
  rw [if_neg (by rwa [hasSuffix_iff])]

theorem withPartialSuffix_append (x : Name) : withPartialSuffix (x ++ partialSuffix) = x ++ partialSuffix := by
  unfold withPartialSuffix
  rw [if_pos (hasSuffix_iff.2 (suffix_append _ _))]

theorem suffix_withPartialSuffix (x : Name) : partialSuffix <:+ withPartialSuffix x := by
  unfold withPartialSuffix
  split
  · rename_i h; exact hasSuffix_iff.1 h
  · exact suffix_append _ _

theorem IsSegment.not_suffix (h : IsSegment x) : ¬ partialSuffix <:+ x := by
  intro hs
  have hdot : '.' ∈ x := hs.subset (by decide)
  exact h.not_mem (by decide) hdot

theorem IsSegment.withPartial (h : IsSegment x) : withPartialSuffix x = x ++ partialSuffix :=
  withPartialSuffix_of_not h.not_suffix

/-! ## Paths -/

/-- A component that `path.Clean` keeps. -/
def Plain (c : Name) : Prop := c ≠ [] ∧ c ≠ ".".toList ∧ c ≠ "..".toList

theorem plain_of_length {c : Name} (h : 2 < c.length) : Plain c := by
  refine ⟨?_, ?_, ?_⟩
  · rintro rfl; simp at h
  · rintro rfl; exact absurd h (by decide)
  · rintro rfl; exact absurd h (by decide)

theorem joinPath_append {c : Name} (hc : Plain c) (elems : List Name) :
    joinPath (elems ++ [c]) = joinPath elems ++ [c] := by
  unfold joinPath
  rw [foldl_append]
  simp only [foldl_cons, foldl_nil, pushComponent]
  rw [if_neg (not_or.2 ⟨hc.1, hc.2.1⟩), if_neg hc.2.2]

theorem onBase_append (f : Name → Name) (dir : Path) (x : Name) : onBase f (dir ++ [x]) = dir ++ [f x] := by
  unfold onBase
  rw [dropLast_concat, getLastD_concat]

theorem archivePath_concat (c : Name) {n : Name} (hn : Plain n) : ∃ dir, getWALArchivePath c n = dir ++ [n] := by
  unfold getWALArchivePath
  split
  · exact ⟨_, joinPath_append hn [c, _]⟩
  · exact ⟨_, joinPath_append hn [c]⟩

theorem isHexDigit_toNat {c : Char} (h : isHexDigit c = true) :
    (48 ≤ c.toNat ∧ c.toNat ≤ 57) ∨ (65 ≤ c.toNat ∧ c.toNat ≤ 70) ∨ (97 ≤ c.toNat ∧ c.toNat ≤ 102) := by
  have hle : ∀ a b : Char, a ≤ b → a.toNat ≤ b.toNat := fun a b hab => UInt32.le_iff_toNat_le.1 hab
  unfold isHexDigit Char.isDigit at h
  simp only [Bool.or_eq_true, Bool.and_eq_true, decide_eq_true_eq] at h
  rcases h with (⟨h₁, h₂⟩ | ⟨h₁, h₂⟩) | ⟨h₁, h₂⟩
  · exact .inl ⟨UInt32.le_iff_toNat_le.1 h₁, UInt32.le_iff_toNat_le.1 h₂⟩
  · exact .inr (.inl ⟨hle _ _ h₁, hle _ _ h₂⟩)
  · exact .inr (.inr ⟨hle _ _ h₁, hle _ _ h₂⟩)

theorem byteLen_hex (h : ∀ c ∈ x, isHexDigit c = true) : byteLen x = x.length := by
  induction x with
  | nil => rfl
  | cons c x ih =>
    have hc : c.utf8Size = 1 := by
      have hn := isHexDigit_toNat (h c mem_cons_self)
      rw [Char.utf8Size_eq_one_iff]
      refine UInt32.le_iff_toNat_le.2 ?_
      show c.toNat ≤ 127
      omega
    have := ih fun c' hc' => h c' (by simp [hc'])
    simp only [byteLen, map_cons, sum_cons, length_cons] at this ⊢
    omega

theorem pathExt_append {x y : Name} (hy : ∀ c ∈ y, c ≠ '.' ∧ c ≠ '/') : pathExt (x ++ '.' :: y) = '.' :: y := by
  have htail : (x ++ '.' :: y).reverse.takeWhile (fun c => c != '.' && c != '/') = y.reverse := by
    rw [reverse_append, reverse_cons, append_assoc]
    rw [takeWhile_append_of_pos]
    · simp
    · intro c hc
      have := hy c (mem_reverse.1 hc)
      simp [this.1, this.2]
  unfold pathExt
  simp only [htail, length_reverse]
  have hhead : ((x ++ '.' :: y).reverse.drop y.length).head? = some '.' := by
    rw [reverse_append, reverse_cons, append_assoc]
    rw [show y.length = y.reverse.length from (length_reverse).symm, drop_left]
    rfl
  rw [if_pos hhead]
  have hlen : (x ++ '.' :: y).length - y.length - 1 = x.length := by
    simp only [length_append, length_cons]; omega
  rw [hlen, drop_left]

theorem pathExt_nil (hx : '.' ∉ x) : pathExt x = [] := by
  unfold pathExt
  rw [if_neg]
  intro h
  have hmem : '.' ∈ x.reverse.drop (x.reverse.takeWhile fun c => c != '.' && c != '/').length :=
    mem_of_mem_head? h
  exact hx (mem_reverse.1 (mem_of_mem_drop hmem))

def segmentDir (c x : Name) : Path := joinPath [c, x.take walSubdirectoryLength]

/-- **Where a segment is archived.** -/
theorem archivePath_segment (c : Name) (hx : IsSegment x) :
    getWALArchivePath c x = segmentDir c x ++ [x] := by
  unfold getWALArchivePath
  have hext : pathExt x = [] := pathExt_nil (hx.not_mem (by decide))
  have htrim : trimSuffix x (pathExt x) = x := by
    rw [hext]; have := trimSuffix_append x []; rwa [append_nil] at this
  have hlen : byteLen x = expectedWalFileNameLength := by rw [byteLen_hex hx.hex, hx.length]; rfl
  rw [htrim, if_pos hlen]
  exact joinPath_append (plain_of_length (by rw [hx.length]; decide)) [c, _]

/-- **Where its partial file is archived.** -/
theorem archivePath_partialSegment (c : Name) (hx : IsSegment x) :
    getWALArchivePath c (x ++ partialSuffix) = segmentDir c x ++ [x ++ partialSuffix] := by
  unfold getWALArchivePath
  have hext : pathExt (x ++ partialSuffix) = partialSuffix := pathExt_append (y := "partial".toList) (by simp)
  have hlen : byteLen x = expectedWalFileNameLength := by rw [byteLen_hex hx.hex, hx.length]; rfl
  have htake : (x ++ partialSuffix).take walSubdirectoryLength = x.take walSubdirectoryLength := by
    rw [take_append_of_le_length]
    rw [hx.length]; decide
  have hplain : Plain (x ++ partialSuffix) := plain_of_length (by rw [length_append, hx.length]; omega)
  rw [hext, trimSuffix_append, if_pos hlen, htake]
  exact joinPath_append hplain [c, _]

/-! ## Validation -/

theorem validCharacter_hex (D : Deps) {c : Char} (h : isHexDigit c = true) : validCharacter D c = true := by
  have hn := isHexDigit_toNat h
  have hlt : c.toNat < 128 := by omega
  have hle : ∀ a b : UInt32, a.toNat ≤ b.toNat → a ≤ b := fun a b hab => UInt32.le_iff_toNat_le.2 hab
  unfold validCharacter
  rw [D.isLetter_ascii c hlt, D.isNumber_ascii c hlt]
  have hascii : c.isAlpha = true ∨ c.isDigit = true := by
    simp only [Char.isAlpha, Char.isUpper, Char.isLower, Char.isDigit, Bool.or_eq_true, Bool.and_eq_true, decide_eq_true_eq]
    rcases hn with hn | hn | hn
    · exact .inr ⟨hle _ _ hn.1, hle _ _ hn.2⟩
    · exact .inl (.inl ⟨hle _ _ hn.1, hle _ _ (le_trans hn.2 (by decide))⟩)
    · exact .inl (.inr ⟨hle _ _ hn.1, hle _ _ (le_trans hn.2 (by decide))⟩)
  rcases hascii with h | h <;> simp [h]

theorem validatePathComponent_ok (D : Deps) (h : ∀ c ∈ x, validCharacter D c = true) :
    validatePathComponent D x = .ok () := by
  unfold validatePathComponent
  rw [if_neg]
  simp only [any_eq_true, not_exists, not_and, Bool.not_eq_true, Bool.not_eq_false']
  exact h

theorem validCharacter_suffix (D : Deps) : ∀ c ∈ partialSuffix, validCharacter D c = true := by
  intro c hc
  have hcases : c = '.' ∨ c = 'p' ∨ c = 'a' ∨ c = 'r' ∨ c = 't' ∨ c = 'i' ∨ c = 'a' ∨ c = 'l' := by
    rw [show partialSuffix = ['.', 'p', 'a', 'r', 't', 'i', 'a', 'l'] from rfl] at hc
    simpa only [mem_cons, not_mem_nil, or_false] using hc
  have hlt : c.toNat < 128 := by rcases hcases with rfl | rfl | rfl | rfl | rfl | rfl | rfl | rfl <;> decide
  unfold validCharacter
  rw [D.isLetter_ascii c hlt, D.isNumber_ascii c hlt]
  rcases hcases with rfl | rfl | rfl | rfl | rfl | rfl | rfl | rfl <;> decide

theorem walFileRE_append {x ext : Name} (h : IsSegment x) (hext : walExtension ext = true) : walFileRE (x ++ ext) = true := by
  have hlen := h.length
  have hall := h.hex
  have h8 : (x ++ ext).take 8 = x.take 8 := take_append_of_le_length (by omega)
  have h16 : ((x ++ ext).drop 8).take 16 = (x.drop 8).take 16 := by
    rw [drop_append_of_le_length (by omega), take_append_of_le_length (by rw [length_drop]; omega)]
  have h24 : (x ++ ext).drop 24 = ext := by rw [← hlen, drop_left]
  have hrun8 : hexRun 8 (x.take 8) = true := by
    unfold hexRun
    rw [Bool.and_eq_true_iff]
    exact ⟨beq_iff_eq.2 (by rw [length_take]; omega),
      all_eq_true.2 fun c hc => hall c (mem_of_mem_take hc)⟩
  have hrun16 : hexRun 16 ((x.drop 8).take 16) = true := by
    unfold hexRun
    rw [Bool.and_eq_true_iff]
    exact ⟨beq_iff_eq.2 (by rw [length_take, length_drop]; omega),
      all_eq_true.2 fun c hc => hall c (mem_of_mem_drop (mem_of_mem_take hc))⟩
  unfold walFileRE
  rw [h8, h16, h24, hrun8, hrun16, hext]
  rfl

theorem isSegment_walFileRE (h : IsSegment x) : walFileRE x = true := by
  have := walFileRE_append h (show walExtension [] = true from rfl)
  rwa [append_nil] at this

theorem walFileRE_length {n : Name} (h : walFileRE n = true) : 15 < n.length := by
  unfold walFileRE at h
  rw [Bool.and_eq_true_iff, Bool.or_eq_true_iff, Bool.and_eq_true_iff] at h
  have h8 : (n.take 8).length = 8 := beq_iff_eq.1 (Bool.and_eq_true_iff.1 h.1).1
  rcases h.2 with ⟨h16, -⟩ | hh
  · have := beq_iff_eq.1 (Bool.and_eq_true_iff.1 h16).1
    rw [length_take, length_drop] at this
    omega
  · have := congrArg length (beq_iff_eq.1 hh)
    rw [length_drop] at this
    have h9 : (".history".toList).length = 8 := by decide
    omega

/-- A name that `walFileRE` accepts and that carries the suffix is a segment with it. -/
theorem walFileRE_partial {n : Name} (h : walFileRE n = true) (hs : partialSuffix <:+ n) :
    ∃ x, IsSegment x ∧ n = x ++ partialSuffix := by
  obtain ⟨x, rfl⟩ := hs
  refine ⟨x, ?_, rfl⟩
  have hps : partialSuffix.length = 8 := by decide
  unfold walFileRE at h
  rw [Bool.and_eq_true_iff, Bool.or_eq_true_iff, Bool.and_eq_true_iff] at h
  obtain ⟨h1, ⟨h2, h3⟩ | h3⟩ := h
  swap
  · -- `.history` does not end in `.partial`
    exfalso
    have heq := beq_iff_eq.1 h3
    have hlen := congrArg length heq
    rw [length_drop, length_append, hps, show (".history".toList).length = 8 from by decide] at hlen
    have hx : x.length = 8 := by omega
    rw [← hx, drop_left] at heq
    exact absurd heq (by decide)
  have hl8 : ((x ++ partialSuffix).take 8).length = 8 := beq_iff_eq.1 (Bool.and_eq_true_iff.1 h1).1
  have hl16 : (((x ++ partialSuffix).drop 8).take 16).length = 16 := beq_iff_eq.1 (Bool.and_eq_true_iff.1 h2).1
  have h24 : x.length + 8 ≥ 24 := by
    rw [length_take, length_drop, length_append, hps] at hl16; omega
  have hxl : x.length = 24 := by
    unfold walExtension at h3
    rw [Bool.or_eq_true_iff, Bool.or_eq_true_iff, Bool.and_eq_true_iff] at h3
    rcases h3 with (h3 | h3) | ⟨h3, h4⟩
    · have := congrArg length (beq_iff_eq.1 h3)
      rw [length_drop, length_append, hps, length_nil] at this
      -- then the digits would end in the suffix
      exfalso
      have hx16 : x.length = 16 := by omega
      have hall := all_eq_true.1 (Bool.and_eq_true_iff.1 h2).2
      have hdot : '.' ∈ ((x ++ partialSuffix).drop 8).take 16 := by
        rw [take_of_length_le (by rw [length_drop, length_append, hps]; omega),
          drop_append_of_le_length (by omega)]
        exact mem_append_right _ (by decide)
      exact absurd (hall '.' hdot) (by decide)
    · have := congrArg length (beq_iff_eq.1 h3)
      rw [length_drop, length_append, hps] at this
      omega
    · exfalso
      have heq := beq_iff_eq.1 h4
      rw [drop_drop] at heq
      have hlen := congrArg length heq
      have hsuf : ".backup".toList <:+ x ++ partialSuffix := heq ▸ drop_suffix _ _
      have : ".backup".toList <:+ partialSuffix :=
        suffix_of_suffix_length_le hsuf (suffix_append _ _) (by decide)
      exact absurd (hasSuffix_iff.2 this) (by decide)
  unfold IsSegment hexRun
  rw [Bool.and_eq_true_iff]
  refine ⟨beq_iff_eq.2 hxl, all_eq_true.2 fun c hc => ?_⟩
  have hsplit : x = (x ++ partialSuffix).take 8 ++ ((x ++ partialSuffix).drop 8).take 16 := by
    rw [← take_add, show 8 + 16 = x.length from by rw [hxl], take_left]
  rw [hsplit] at hc
  rcases mem_append.1 hc with hc | hc
  · exact all_eq_true.1 (Bool.and_eq_true_iff.1 h1).2 c hc
  · exact all_eq_true.1 (Bool.and_eq_true_iff.1 h2).2 c hc

variable {r : PutRequest}

theorem archivePath_accepted (h : walFileRE r.walName = true) :
    ∃ dir, getWALArchivePath r.clusterName r.walName = dir ++ [r.walName] := by
  have hlen := walFileRE_length h
  have hplain : Plain r.walName := plain_of_length (by omega)
  exact archivePath_concat r.clusterName hplain

theorem stagingPath_eq {dir : Path} (h : getWALArchivePath r.clusterName r.walName = dir ++ [r.walName]) :
    stagingPath r = dir ++ [withPartialSuffix r.walName] := by
  unfold stagingPath; rw [h, onBase_append]

theorem finalPath_eq {dir : Path} (h : getWALArchivePath r.clusterName r.walName = dir ++ [r.walName]) :
    finalPath r = dir ++ [trimPartialSuffix (withPartialSuffix r.walName)] := by
  unfold finalPath; rw [stagingPath_eq h, onBase_append]

end Klio
