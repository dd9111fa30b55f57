import Mathlib.Data.List.Chain
import Mathlib.Data.List.DropRight
import Mathlib.Data.List.Nodup
import Mathlib.Data.List.Perm.Subperm
import Reeva.Cms.SoftwareService
import Reeva.Interleaving.Alone
import Reeva.Signer.Manifest

/-!
# Slugs of new products

A new product gets the slug of its name, or, where that is taken, the slug with the smallest suffix
that is free. The loop that looks for it ends, its result has the form of a slug, and the signer and
the tool of its operators take it (`slug_allocation`). The one exception is a table of all the
`2 ^ 53 - 1` candidates whose suffix is a number that JavaScript can count to, for a name whose slug
is one of them (`slug_allocation_stuck`).
-/

open Interleaving ReadCommitted

namespace Reeva

/-! ## The form of a slug -/

/-- Characters of `[a-z0-9]` and hyphens, no two hyphens in a row. -/
structure Hyphenated (cs : List Char) : Prop where
  chars : ∀ c ∈ cs, isSlugChar c = true ∨ c = '-'
  chain : cs.IsChain fun a b => ¬(a = '-' ∧ b = '-')

/-- Runs of `[a-z0-9]` separated by single hyphens. -/
structure IsSlug (cs : List Char) : Prop extends Hyphenated cs where
  ne_nil : cs ≠ []
  head : cs.head? ≠ some '-'
  last : cs.getLast? ≠ some '-'

/-- A part of such a text is one. -/
theorem Hyphenated.of_part {cs ds : List Char} (h : Hyphenated cs) (hds : ds <:+: cs) :
    Hyphenated ds :=
  ⟨fun c hc => h.chars c (hds.subset hc), h.chain.infix hds⟩

/-- To replace the runs of other characters leaves single hyphens. -/
theorem hyphenated_replaceRuns (inRun : Bool) (cs : List Char) :
    Hyphenated (replaceRuns isSlugChar inRun cs) ∧
      (inRun = true → (replaceRuns isSlugChar inRun cs).head? ≠ some '-') := by
  induction cs generalizing inRun with
  | nil => exact ⟨⟨by simp [replaceRuns], .nil⟩, by simp [replaceRuns]⟩
  | cons c cs ih =>
    unfold replaceRuns
    split
    · rename_i hc
      obtain ⟨⟨hchars, hchain⟩, -⟩ := ih false
      have hne : c ≠ '-' := by
        rintro rfl
        exact absurd hc (by decide)
      refine ⟨⟨?_, List.isChain_cons.mpr ⟨fun b _ h => hne h.1, hchain⟩⟩, fun _ => by simpa⟩
      simpa using ⟨.inl hc, hchars⟩
    · obtain ⟨⟨hchars, hchain⟩, hhead⟩ := ih true
      split
      · exact ⟨⟨hchars, hchain⟩, fun _ => hhead rfl⟩
      · rename_i hrun
        refine ⟨⟨?_, List.isChain_cons.mpr ⟨fun b hb h => hhead rfl (h.2 ▸ hb), hchain⟩⟩,
          fun h => absurd h hrun⟩
        simpa using hchars

/-- What is left without the hyphens at the end is a slug. -/
theorem isSlug_dropTrailingHyphens {cs : List Char} (h : Hyphenated cs) (hne : cs ≠ [])
    (hhead : cs.head? ≠ some '-') : IsSlug (dropTrailingHyphens cs) := by
  have hdrop : dropTrailingHyphens cs = cs.rdropWhile (· = '-') := rfl
  have hcutslug : cs.rdropWhile (· = '-') <+: cs := List.rdropWhile_prefix _ _
  have hrest : cs.rdropWhile (· = '-') ≠ [] := by
    intro hnil
    obtain ⟨c, cs', rfl⟩ := List.exists_cons_of_ne_nil hne
    have hc := List.rdropWhile_eq_nil_iff.mp hnil c (.head _)
    exact hhead (congrArg some (of_decide_eq_true hc))
  rw [hdrop]
  refine ⟨h.of_part hcutslug.isInfix, hrest, ?_, ?_⟩
  · obtain ⟨t, ht⟩ := hcutslug
    rw [← ht, List.head?_append_of_ne_nil _ hrest] at hhead
    exact hhead
  · intro hlast
    refine List.rdropWhile_last_not _ cs hrest ?_
    rw [List.getLast?_eq_some_getLast hrest] at hlast
    exact decide_eq_true (Option.some.inj hlast)

/-- A slug begins with a character of `[a-z0-9]`. -/
theorem IsSlug.head_char {c : Char} {cs : List Char} (h : IsSlug (c :: cs)) :
    isSlugChar c = true :=
  (h.chars c (.head _)).resolve_right fun hc => h.head (congrArg some hc)

/-- What follows the first character of a slug is a slug, or begins with a hyphen. -/
theorem IsSlug.tail {c d : Char} {cs : List Char} (h : IsSlug (c :: d :: cs)) (hd : d ≠ '-') :
    IsSlug (d :: cs) where
  toHyphenated := h.of_part (List.suffix_cons _ _).isInfix
  ne_nil := List.cons_ne_nil _ _
  head := fun hh => hd (Option.some.inj hh)
  last := by
    have hlast := h.last
    rwa [List.getLast?_cons_cons] at hlast

/-- What follows the first hyphen of a slug is a slug. -/
theorem IsSlug.afterHyphen {c : Char} {cs : List Char} (h : IsSlug (c :: '-' :: cs)) :
    IsSlug cs := by
  have hne : cs ≠ [] := by
    rintro rfl
    exact h.last rfl
  obtain ⟨e, cs', rfl⟩ := List.exists_cons_of_ne_nil hne
  have hchain := (List.isChain_cons_cons.mp h.chain).2
  refine ⟨h.of_part ((List.suffix_cons _ _).trans (List.suffix_cons _ _)).isInfix, hne, ?_, ?_⟩
  · exact fun he => (List.isChain_cons_cons.mp hchain).1 ⟨rfl, Option.some.inj he⟩
  · have hlast := h.last
    rwa [List.getLast?_cons_cons, List.getLast?_cons_cons] at hlast

/-- A slug consists of words. -/
theorem IsSlug.words : ∀ {cs : List Char}, IsSlug cs →
    ∃ words : List (List Char), words ≠ [] ∧
      (∀ w ∈ words, w ≠ [] ∧ ∀ c ∈ w, isSlugChar c = true) ∧ cs = ['-'].intercalate words
  | [], h => absurd rfl h.ne_nil
  | [c], h => by
    refine ⟨[[c]], List.cons_ne_nil _ _, ?_, rfl⟩
    simpa using h.head_char
  | c :: d :: cs, h => by
    by_cases hd : d = '-'
    · subst hd
      obtain ⟨words, hne, hwords, rfl⟩ := h.afterHyphen.words
      refine ⟨[c] :: words, List.cons_ne_nil _ _, ?_, ?_⟩
      · simpa using ⟨h.head_char, hwords⟩
      · rw [List.intercalate_cons_of_ne_nil hne]
        rfl
    · obtain ⟨words, hne, hwords, hcs⟩ := (h.tail hd).words
      obtain ⟨w, words, rfl⟩ := List.exists_cons_of_ne_nil hne
      refine ⟨(c :: w) :: words, List.cons_ne_nil _ _, ?_, ?_⟩
      · simp only [List.mem_cons, forall_eq_or_imp] at hwords ⊢
        exact ⟨⟨List.cons_ne_nil _ _, h.head_char, hwords.1.2⟩, hwords.2⟩
      · rw [hcs]
        cases words with
        | nil => rfl
        | cons w' words => rfl

/-- A slug, a hyphen and a slug make a slug. -/
theorem IsSlug.append {cs ds : List Char} (hc : IsSlug cs) (hd : IsSlug ds) :
    IsSlug (cs ++ '-' :: ds) where
  chars := by
    intro c hmem
    obtain hmem | hmem := List.mem_append.mp hmem
    · exact hc.chars c hmem
    · obtain rfl | hmem := List.mem_cons.mp hmem
      · exact .inr rfl
      · exact hd.chars c hmem
  chain := by
    refine List.isChain_append.mpr ⟨hc.chain, List.isChain_cons.mpr ⟨?_, hd.chain⟩, ?_⟩
    · exact fun d hmem h => hd.head (h.2 ▸ hmem)
    · exact fun c hmem _ _ h => hc.last (h.1 ▸ hmem)
  ne_nil := by simp
  head := by
    rw [List.head?_append_of_ne_nil _ hc.ne_nil]
    exact hc.head
  last := by
    obtain ⟨d, ds, rfl⟩ := List.exists_cons_of_ne_nil hd.ne_nil
    rw [List.getLast?_append_cons, List.getLast?_cons_cons]
    exact hd.last

variable (node : Node)

/-- Without the hyphens at its ends, a text does not begin with one. -/
theorem head?_strip (cs : List Char) : (Js.strip (· = '-') cs).head? ≠ some '-' := by
  have hstrip : Js.strip (· = '-') cs = (cs.dropWhile (· = '-')).rdropWhile (· = '-') := rfl
  rw [hstrip]
  by_cases hne : (cs.dropWhile (· = '-')).rdropWhile (· = '-') = []
  · rw [hne]
    simp
  · obtain ⟨t, ht⟩ := List.rdropWhile_prefix (· = '-') (cs.dropWhile (· = '-'))
    intro hhead
    have hfirst := List.head?_dropWhile_not (· = '-') cs
    rw [← ht, List.head?_append_of_ne_nil _ hne, hhead] at hfirst
    simp at hfirst

/-- A part of a text is left without the hyphens at its ends. -/
theorem strip_isInfix (cs : List Char) : Js.strip (· = '-') cs <:+: cs :=
  ((List.rdropWhile_prefix (· = '-') _).isInfix).trans (List.dropWhile_suffix _).isInfix

/-- The slug of a name is one of at most 80 characters. -/
theorem isSlug_createSafeSlug (name : String) :
    IsSlug (createSafeSlug node name).toList ∧ (createSafeSlug node name).toList.length ≤ 80 := by
  have hall : "software".toList.all isSlugChar = true := by decide
  have software : IsSlug "software".toList ∧ "software".toList.length ≤ 80 :=
    ⟨⟨⟨fun c hc => .inl (List.all_eq_true.mp hall c hc), by decide⟩, by decide, by decide,
      by decide⟩, by decide⟩
  unfold createSafeSlug orElse
  dsimp only
  generalize String.toList (node.toLowerCase _) = lower
  split
  · exact software
  · rename_i hne
    rw [String.toList_ofList]
    generalize hcut : (Js.strip (· = '-') (replaceRuns isSlugChar false lower)).take maxSlugLength
      = cut at hne ⊢
    have hpart : cut <:+: replaceRuns isSlugChar false lower := by
      rw [← hcut]
      exact (List.take_prefix _ _).isInfix.trans (strip_isInfix _)
    have hlen : cut.length ≤ 80 := by
      rw [← hcut]
      exact List.length_take_le _ _
    have hcutne : cut ≠ [] := by
      rintro rfl
      exact hne rfl
    have hhead : cut.head? ≠ some '-' := by
      intro hh
      obtain ⟨t, ht⟩ := List.take_prefix maxSlugLength
        (Js.strip (· = '-') (replaceRuns isSlugChar false lower))
      rw [hcut] at ht
      refine head?_strip (replaceRuns isSlugChar false lower) ?_
      rw [← ht, List.head?_append_of_ne_nil _ hcutne, hh]
    refine ⟨isSlug_dropTrailingHyphens ((hyphenated_replaceRuns false lower).1.of_part hpart)
      hcutne hhead, ?_⟩
    exact ((List.rdropWhile_prefix (· = '-') cut).length_le).trans hlen

/-! ## Candidates -/

/-- A number is written in digits. -/
theorem isDigit_of_mem_toString {n : ℕ} {c : Char} (h : c ∈ (toString n).toList) :
    c.isDigit = true := by
  rw [Nat.toString_eq_repr, Nat.toList_repr] at h
  exact Nat.isDigit_of_mem_toDigits (by decide) (by decide) h

/-- A number is written without a hyphen. -/
theorem hyphen_notMem_toString (n : ℕ) : '-' ∉ (toString n).toList := fun h =>
  absurd (isDigit_of_mem_toString h) (by decide)

/-- The digits of a number are a slug. -/
theorem isSlug_digits (n : ℕ) : IsSlug (toString n).toList := by
  have hhyphen : ∀ c ∈ (toString n).toList, c ≠ '-' := fun c hc h =>
    hyphen_notMem_toString n (h ▸ hc)
  have hne : (toString n).toList ≠ [] := by
    rw [Nat.toString_eq_repr, Nat.toList_repr]
    exact Nat.toDigits_ne_nil
  refine ⟨⟨fun c hc => .inl ?_, ?_⟩, hne, ?_, ?_⟩
  · rw [isSlugChar, isDigit_of_mem_toString hc, Bool.true_or]
  · exact List.Pairwise.isChain (List.pairwise_of_forall_mem_list
      fun c hc d _ (h : c = '-' ∧ d = '-') => hhyphen c hc h.1)
  · exact fun h => hhyphen _ (List.mem_of_head? h) rfl
  · exact fun h => hhyphen _ (List.mem_of_getLast? h) rfl

/-- A slug with a suffix that JavaScript can count to is a slug of at most 80 characters. -/
theorem isSlug_suffixedSlug {base : String} (h : IsSlug base.toList) {n : ℕ}
    (hn : n ≤ 9007199254740992) :
    IsSlug (suffixedSlug base n).toList ∧ (suffixedSlug base n).toList.length ≤ 80 := by
  have hdigits : (toString n).toList.length ≤ 16 := by
    rw [Nat.toString_eq_repr, Nat.toList_repr]
    exact (Nat.length_toDigits_le_iff (by decide) (by decide)).mpr (Nat.lt_of_le_of_lt hn (by decide))
  unfold suffixedSlug maxSlugLength
  dsimp only
  rw [String.toList_ofList, List.length_cons]
  generalize hlen : 80 - ((toString n).toList.length + 1) = len
  have hpos : 0 < len := by omega
  obtain ⟨c, cs, hbase⟩ := List.exists_cons_of_ne_nil h.ne_nil
  have hhead := h.head
  have hpart := (List.take_prefix len base.toList).isInfix
  rw [hbase] at hhead hpart ⊢
  obtain ⟨len, rfl⟩ : ∃ m, len = m + 1 := ⟨len - 1, by omega⟩
  have hcutslug : IsSlug (dropTrailingHyphens ((c :: cs).take (len + 1))) := by
    refine isSlug_dropTrailingHyphens (h.of_part (hbase ▸ hpart)) (List.cons_ne_nil _ _) ?_
    exact hhead
  refine ⟨hcutslug.append (isSlug_digits n), ?_⟩
  have hshort := (List.rdropWhile_prefix (· = '-') ((c :: cs).take (len + 1))).length_le.trans
    (List.length_take_le _ _)
  have hcut : (dropTrailingHyphens ((c :: cs).take (len + 1))).length ≤ len + 1 := hshort
  rw [List.length_append, List.length_cons]
  omega

/-- Different suffixes make different candidates. -/
theorem suffixedSlug_injective {base : String} {m n : ℕ}
    (h : suffixedSlug base m = suffixedSlug base n) : m = n := by
  have hdigits := Js.after_separator (hyphen_notMem_toString m) (hyphen_notMem_toString n)
    (String.ofList_injective h)
  have hvalue := congrArg (fun cs => Nat.ofDigitChars 10 cs 0) hdigits
  simpa only [Nat.toString_eq_repr, Nat.toList_repr, Nat.ofDigitChars_toDigits (b := 10)
    (by decide) (by decide)] using hvalue

/-- What the loop tries at a value of its counter: the slug itself, then the slug with a suffix. -/
def candidate (base : String) (n : ℕ) : String := if n = 1 then base else suffixedSlug base n

/-- The candidate after the one for a number that JavaScript can count from. -/
theorem candidate_increment (base : String) {n : ℕ} (hpos : 0 < n) (hn : n < 9007199254740992) :
    suffixedSlug base (Js.increment n) = candidate base (n + 1) ∧ Js.increment n = n + 1 := by
  have hnext : Js.increment n = n + 1 := if_pos hn
  rw [hnext, candidate, if_neg (by omega)]
  exact ⟨rfl, rfl⟩

/-- Where all candidates with a suffix up to `n` are taken, there are so many slugs. -/
theorem length_of_taken (base : String) {slugs : List String} {n : ℕ}
    (h : ∀ m, 2 ≤ m → m ≤ n → candidate base m ∈ slugs) : n ≤ slugs.length + 1 := by
  have hnodup : ((List.range' 2 (n - 1)).map (suffixedSlug base)).Nodup :=
    List.Nodup.map (fun _ _ => suffixedSlug_injective) List.nodup_range'
  have hsubset : (List.range' 2 (n - 1)).map (suffixedSlug base) ⊆ slugs := by
    intro slug hslug
    obtain ⟨m, hm, rfl⟩ := List.mem_map.mp hslug
    rw [List.mem_range'_1] at hm
    have hmem := h m hm.1 (by omega)
    rwa [candidate, if_neg (by omega)] at hmem
  have hle := (hnodup.subperm hsubset).length_le
  rw [List.length_map, List.length_range'] at hle
  omega

/-! ## The loop -/

/-- The slugs in a database. -/
def slugsOf (d : Db) : List String := d.software.map (·.slug)

/-- Every statement succeeds. -/
def AllSucceed : Guard (Service cmsSchema cmsWorld) := fun _ _ ch _ => ch = .db .none

variable {i : ℕ} {σ σ' : System cmsSchema cmsWorld.State} (base : String)

/-- A program that begins with a query ends as what follows it does. -/
theorem completes_select {α β : Type} {f : Tables → α} {k : α → Cms β}
    {r : Except (Failure String) β} (hgone : σ.server.gone i = false) :
    Completes (X := cmsWorld) AllSucceed i ((Cms.select f).bind k) σ r σ' ↔
      Completes (X := cmsWorld) AllSucceed i (k (f (σ.server.view i).toTables)) σ r σ' := by
  have hrun : (Service cmsSchema cmsWorld).run i
      (.db (.query fun d : Db => f d.toTables)) (.db .none) σ =
        some (.ok (f (σ.server.view i).toTables), σ) := by
    change (if σ.server.gone i then none else _) = _
    rw [hgone]
    rfl
  constructor
  · intro h
    obtain ⟨ch, r₁, σ₁, rfl, hr, hrest⟩ := Completes.cons h
    obtain ⟨rfl, rfl⟩ := Prod.mk.inj (Option.some.inj (hrun.symm.trans hr))
    exact hrest
  · exact fun h => .step rfl hrun h

/-- The query of the loop finds a slug that is taken. -/
theorem any_slug_eq {d : Db} {slug : String} :
    d.software.any (·.slug = slug) = decide (slug ∈ slugsOf d) := by
  rw [Bool.eq_iff_iff, List.any_eq_true, decide_eq_true_eq, slugsOf, List.mem_map]
  simp only [decide_eq_true_eq]

/-- One attempt of the loop. -/
theorem completes_attempt (hgone : σ.server.gone i = false) {fuel n : ℕ} {slug : String}
    {r : Except (Failure String) String} :
    Completes (X := cmsWorld) AllSucceed i
        (SoftwareService.freeSlug base (fuel + 1) slug n) σ r σ' ↔
      if slug ∈ slugsOf (σ.server.view i) then
        Completes (X := cmsWorld) AllSucceed i (SoftwareService.freeSlug base fuel
          (suffixedSlug base (Js.increment n)) (Js.increment n)) σ r σ'
      else r = .ok slug ∧ σ' = σ := by
  refine Iff.trans (completes_select hgone (f := fun t => t.software.any (·.slug = slug))
    (k := fun taken =>
      if taken then SoftwareService.freeSlug base fuel (suffixedSlug base (Js.increment n))
        (Js.increment n) else .ret slug)) ?_
  rw [any_slug_eq]
  by_cases h : slug ∈ slugsOf (σ.server.view i)
  · rw [if_pos h, decide_eq_true h, if_pos rfl]
  · rw [if_neg h, decide_eq_false h, if_neg Bool.false_ne_true]
    exact completes_ret

/-- The loop ends at the first candidate that is free. -/
theorem completes_freeSlug (hgone : σ.server.gone i = false) {k : ℕ} :
    ∀ {fuel n : ℕ}, k < fuel → 0 < n → n + k ≤ 9007199254740992 →
      (∀ m, n ≤ m → m < n + k → candidate base m ∈ slugsOf (σ.server.view i)) →
      candidate base (n + k) ∉ slugsOf (σ.server.view i) →
      ∀ r σ', Completes (X := cmsWorld) AllSucceed i
          (SoftwareService.freeSlug base fuel (candidate base n) n) σ r σ' ↔
        r = .ok (candidate base (n + k)) ∧ σ' = σ := by
  induction k with
  | zero =>
    intro fuel n hk hpos hn htaken hfree r σ'
    obtain ⟨fuel, rfl⟩ : ∃ m, fuel = m + 1 := ⟨fuel - 1, by omega⟩
    rw [Nat.add_zero] at hfree
    rw [completes_attempt base hgone, if_neg hfree]
    exact Iff.rfl
  | succ k ih =>
    intro fuel n hk hpos hn htaken hfree r σ'
    obtain ⟨fuel, rfl⟩ : ∃ m, fuel = m + 1 := ⟨fuel - 1, by omega⟩
    obtain ⟨hnext, hcount⟩ := candidate_increment base hpos (by omega)
    rw [completes_attempt base hgone, if_pos (htaken n (Nat.le_refl n) (by omega)), hnext, hcount]
    have harith : n + (k + 1) = n + 1 + k := by omega
    rw [harith] at hfree ⊢
    exact ih (by omega) (by omega) (by omega) (fun m hm hlt => htaken m (by omega) (by omega))
      hfree r σ'

/-- Where all candidates are taken that JavaScript can count to, the loop does not end. -/
theorem not_completes_freeSlug (hgone : σ.server.gone i = false)
    (htaken : ∀ m, 0 < m → m ≤ 9007199254740992 →
      candidate base m ∈ slugsOf (σ.server.view i)) (fuel : ℕ) :
    ∀ {n : ℕ}, 0 < n → n ≤ 9007199254740992 → ∀ r σ',
      ¬Completes (X := cmsWorld) AllSucceed i
        (SoftwareService.freeSlug base fuel (candidate base n) n) σ r σ' := by
  induction fuel with
  | zero =>
    intro n _ _ r σ' h
    obtain ⟨ch, r₁, -⟩ := Completes.cons h
    exact Empty.elim r₁
  | succ fuel ih =>
    intro n hpos hn r σ' h
    rw [completes_attempt base hgone, if_pos (htaken n hpos hn)] at h
    by_cases hlt : n < 9007199254740992
    · obtain ⟨hnext, hcount⟩ := candidate_increment base hpos hlt
      rw [hnext, hcount] at h
      exact ih (by omega) (by omega) r σ' h
    · -- Here the counter is stuck.
      have hstuck : Js.increment n = n := if_neg hlt
      have hcandidate : suffixedSlug base n = candidate base n := by
        rw [candidate, if_neg (by omega)]
      rw [hstuck, hcandidate] at h
      exact ih hpos hn r σ' h

/-! ## What takes a slug -/

/-- `/^[a-z0-9](?:[a-z0-9-]{0,78}[a-z0-9])?$/` -/
def matchesSlug : List Char → Bool
  | [] => false
  | [c] => isSlugChar c
  | c :: cs =>
    isSlugChar c && cs.dropLast.length ≤ 78 &&
      cs.dropLast.all (fun c => isSlugChar c || c = '-') && cs.getLast?.any isSlugChar

/-- `slug` of `signer_admin.mjs`. -/
def SignerAdmin.slug : Json → Bool
  | .str value => matchesSlug value.toList
  | _ => false

/-- The tool of the signer's operators takes a slug of at most 80 characters. -/
theorem operator_takes {s : String} (h : IsSlug s.toList) (hlen : s.toList.length ≤ 80) :
    SignerAdmin.slug (.str s) = true := by
  change matchesSlug s.toList = true
  match s.toList, h, hlen with
  | [], h, _ => exact absurd rfl h.ne_nil
  | [c], h, _ => exact h.head_char
  | c :: d :: ds, h, hlen =>
    unfold matchesSlug
    have hne : d :: ds ≠ [] := List.cons_ne_nil _ _
    have hlast := h.last
    have hchars : ∀ e ∈ d :: ds, isSlugChar e = true ∨ e = '-' := fun e he =>
      h.chars e (.tail _ he)
    rw [List.length_cons] at hlen
    simp only [Bool.and_eq_true, decide_eq_true_eq, List.length_dropLast, List.all_eq_true,
      Bool.or_eq_true]
    refine ⟨⟨⟨h.head_char, by omega⟩, fun e he => hchars e (List.mem_of_mem_dropLast he)⟩, ?_⟩
    rw [List.getLast?_cons_cons, List.getLast?_eq_some_getLast hne] at hlast
    rw [List.getLast?_eq_some_getLast hne]
    exact (hchars _ (List.getLast_mem hne)).resolve_right fun he => hlast (congrArg some he)

/-- The signer takes a slug of at most 80 characters. -/
theorem signer_takes {s : String} (h : IsSlug s.toList) (hlen : s.toList.length ≤ 80) :
    Signer.validSlug s = true := by
  have hne : s ≠ "" := by
    rintro rfl
    exact h.ne_nil rfl
  have hchar : ∀ c ∈ s.toList, (c.isLower || c.isDigit || c = '-') = true := by
    intro c hc
    obtain hc | rfl := h.chars c hc
    · rw [isSlugChar, Bool.or_eq_true] at hc
      rw [Bool.or_eq_true, Bool.or_eq_true]
      exact .inl hc.symm
    · rfl
  have hbytes : Signer.byteLength s ≤ 80 := by
    rwa [Signer.byteLength_of_ascii fun c hc => (Signer.slugChar_ascii (hchar c hc)).2]
  simp only [Signer.validSlug, Bool.and_eq_true, decide_eq_true_eq]
  exact ⟨⟨⟨⟨hne, hbytes⟩, h.head⟩, h.last⟩, List.all_eq_true.mpr hchar⟩

/-! ## The slug of a new product -/

/-- The loop of `create` ends where it finds a candidate, among those with a suffix that JavaScript
can count to, that is free. It yields the slug of the name when that is free, and otherwise the
candidate with the smallest suffix that is free; the result has the form of a slug, and the signer
and the operators' tool take it. -/
theorem slug_allocation (name : String) (hgone : σ.server.gone i = false) {fuel : ℕ}
    (hfuel : (slugsOf (σ.server.view i)).length + 2 ≤ fuel)
    (hfree : createSafeSlug node name ∉ slugsOf (σ.server.view i) ∨
      ∃ n, 2 ≤ n ∧ n ≤ 2 ^ 53 ∧
        suffixedSlug (createSafeSlug node name) n ∉ slugsOf (σ.server.view i)) :
    ∃ slug, (∀ r σ', Completes (X := cmsWorld) AllSucceed i (SoftwareService.freeSlug
          (createSafeSlug node name) fuel (createSafeSlug node name) 1) σ r σ' ↔
        r = .ok slug ∧ σ' = σ) ∧
      slug ∉ slugsOf (σ.server.view i) ∧
      1 ≤ slug.toList.length ∧ slug.toList.length ≤ 80 ∧
      (∃ words : List (List Char), words ≠ [] ∧
        (∀ w ∈ words, w ≠ [] ∧ ∀ c ∈ w, isSlugChar c = true) ∧
        slug.toList = ['-'].intercalate words) ∧
      (createSafeSlug node name ∉ slugsOf (σ.server.view i) → slug = createSafeSlug node name) ∧
      (createSafeSlug node name ∈ slugsOf (σ.server.view i) →
        ∃ n, 2 ≤ n ∧ slug = suffixedSlug (createSafeSlug node name) n ∧
          ∀ m, 2 ≤ m → m < n →
            suffixedSlug (createSafeSlug node name) m ∈ slugsOf (σ.server.view i)) ∧
      Signer.validSlug slug = true ∧ SignerAdmin.slug (.str slug) = true := by
  generalize hslugs : slugsOf (σ.server.view i) = slugs at hfuel hfree ⊢
  obtain ⟨hbase, hbaseLen⟩ := isSlug_createSafeSlug node name
  generalize createSafeSlug node name = base at hfree hbase hbaseLen ⊢
  -- The counter stops at the first number whose candidate is free.
  have hexists : ∃ n, 0 < n ∧ n ≤ 2 ^ 53 ∧ candidate base n ∉ slugs := by
    obtain h | ⟨n, htwo, hn, h⟩ := hfree
    · exact ⟨1, by decide, by decide, h⟩
    · exact ⟨n, by omega, hn, by rwa [candidate, if_neg (by omega)]⟩
  obtain ⟨n, ⟨hpos, hn, hnotin⟩, hmin⟩ : ∃ n, (0 < n ∧ n ≤ 2 ^ 53 ∧ candidate base n ∉ slugs) ∧
      ∀ m < n, 0 < m → candidate base m ∈ slugs := by
    classical
    refine ⟨Nat.find hexists, Nat.find_spec hexists, fun m hm hpos => ?_⟩
    by_contra hfree
    exact Nat.find_min hexists hm
      ⟨hpos, Nat.le_of_lt (Nat.lt_of_lt_of_le hm (Nat.find_spec hexists).2.1), hfree⟩
  -- Each candidate before it is a slug of a product, and no two of them are the same.
  have hshort : n - 1 ≤ slugs.length + 1 :=
    length_of_taken base fun m hm hle => hmin m (by omega) (by omega)
  have harith : 1 + (n - 1) = n := by omega
  have hloop := completes_freeSlug base hgone (show n - 1 < fuel by omega) (n := 1)
    (by decide) (by omega)
    (fun m hm hlt => hslugs ▸ hmin m (by omega) (by omega))
    (by rwa [harith, hslugs])
  rw [harith] at hloop
  have hform : IsSlug (candidate base n).toList ∧ (candidate base n).toList.length ≤ 80 := by
    unfold candidate
    split
    · exact ⟨hbase, hbaseLen⟩
    · exact isSlug_suffixedSlug hbase hn
  refine ⟨candidate base n, hloop, hnotin, List.length_pos_iff.mpr hform.1.ne_nil, hform.2,
    hform.1.words, fun h => ?_, fun h => ?_, signer_takes hform.1 hform.2,
    operator_takes hform.1 hform.2⟩
  · have hone : ¬1 < n := fun hlt => h (hmin 1 hlt (by decide))
    rw [candidate, if_pos (by omega)]
  · -- The slug of the name itself is taken.
    have hne : n ≠ 1 := by
      rintro rfl
      exact hnotin h
    refine ⟨n, by omega, if_neg hne, fun m hm hlt => ?_⟩
    have hmem := hmin m hlt (by omega)
    rwa [candidate, if_neg (by omega)] at hmem

/-- A database whose products have the slugs that are made of `base` with the suffixes from 2 to
`n`. -/
def crowd (base : String) (n : ℕ) : Tables where
  software := (List.range' 2 (n - 1)).map fun m =>
    { id := suffixedSlug base m, name := base, slug := suffixedSlug base m, isActive := true,
      isDefault := false, requireSignedUpdates := false }
  signingKeys := []
  versions := []
  platforms := []
  architectures := []
  storageProviders := []
  artifacts := []
  reservations := []

/-- Such a database satisfies its constraints. -/
theorem crowd_valid (base : String) (n : ℕ) : (crowd base n).Valid := by
  have hnodup : ((List.range' 2 (n - 1)).map (suffixedSlug base)).Nodup :=
    List.Nodup.map (fun _ _ => suffixedSlug_injective) List.nodup_range'
  have hdefault : ∀ s ∈ (crowd base n).software, s.isDefault = false := by
    intro s hs
    obtain ⟨m, -, rfl⟩ := List.mem_map.mp hs
    rfl
  have nil : ∀ {α : Type}, ([] : List α).Nodup := List.nodup_nil
  refine ⟨?_, ?_, ?_, ?_, nil, nil, nil, nil, nil, nil, nil, Nat.zero_le _, nil, nil, nil⟩
  · rwa [crowd, List.map_map]
  · rwa [crowd, List.map_map]
  · have hnone : (crowd base n).software.filter (·.isDefault) = [] :=
      List.filter_eq_nil_iff.mpr fun s hs => by simp [hdefault s hs]
    rw [hnone]
    exact Nat.zero_le _
  · exact fun s hs h => absurd ((hdefault s hs).symm.trans h) Bool.false_ne_true

/-- The slugs of such a database. -/
theorem mem_slugsOf_crowd {base slug : String} {n : ℕ} :
    slug ∈ slugsOf ⟨crowd base n, crowd_valid base n⟩ ↔
      ∃ m, 2 ≤ m ∧ m < 2 + (n - 1) ∧ slug = suffixedSlug base m := by
  simp only [slugsOf, crowd, List.map_map, List.mem_map, List.mem_range'_1, Function.comp_apply,
    and_assoc, eq_comm]

/-- The number of slugs in such a database. -/
theorem length_slugsOf_crowd (base : String) (n : ℕ) :
    (slugsOf ⟨crowd base n, crowd_valid base n⟩).length = n - 1 := by
  simp only [slugsOf, crowd, List.length_map, List.length_range']

/-- The loop where the slugs `a-2` and `a-3` are taken, for a product of the name `a-2`. -/
theorem slug_allocation_example :
    ∃ slug, Completes (X := cmsWorld) AllSucceed 0
        (SoftwareService.freeSlug (createSafeSlug toyNode "a-2") 4 (createSafeSlug toyNode "a-2") 1)
        ⟨.idle ⟨crowd "a" 3, crowd_valid "a" 3⟩, emptyWorld⟩ (.ok slug)
        ⟨.idle ⟨crowd "a" 3, crowd_valid "a" 3⟩, emptyWorld⟩ ∧
      slug ∉ slugsOf ⟨crowd "a" 3, crowd_valid "a" 3⟩ := by
  obtain ⟨slug, hloop, hfree, -⟩ := slug_allocation (i := 0) toyNode "a-2"
    (σ := ⟨.idle ⟨crowd "a" 3, crowd_valid "a" 3⟩, emptyWorld⟩) rfl (Nat.le_refl 4)
    (.inr ⟨2, by decide, by decide, by decide +kernel⟩)
  exact ⟨slug, (hloop _ _).mpr ⟨rfl, rfl⟩, hfree⟩

/-- A name of 80 characters whose slug is the candidate with suffix 2. -/
def stuckName : String := String.ofList (List.replicate 78 'a' ++ ['-', '2'])

/-- The loop does not end for every table: with all the candidates taken whose suffix JavaScript can
count to, less than `2 ^ 53` of them, the counter gets stuck. -/
theorem slug_allocation_stuck :
    (Js.trim stuckName).length = 80 ∧
      ∃ d : Db, (slugsOf d).length < 2 ^ 53 ∧ ∀ (i fuel : ℕ) (w : CmsWorld) r σ',
        ¬Completes (X := cmsWorld) AllSucceed i (SoftwareService.freeSlug
          (createSafeSlug toyNode (Js.trim stuckName)) fuel
          (createSafeSlug toyNode (Js.trim stuckName)) 1) ⟨.idle d, w⟩ r σ' := by
  have htrim : Js.trim stuckName = stuckName := by decide +kernel
  have hslug : createSafeSlug toyNode stuckName = stuckName := by decide +kernel
  have hsecond : suffixedSlug stuckName 2 = stuckName := by decide +kernel
  rw [htrim, hslug]
  refine ⟨by decide, ⟨crowd stuckName (2 ^ 53), crowd_valid _ _⟩, ?_, ?_⟩
  · rw [length_slugsOf_crowd]
    decide
  · intro i fuel w r σ'
    have hstuck := not_completes_freeSlug stuckName (i := i)
      (σ := ⟨.idle ⟨crowd stuckName (2 ^ 53), crowd_valid _ _⟩, w⟩) rfl (fun m hpos hm => ?_) fuel
      (n := 1) (by decide) (by decide) r σ'
    · exact hstuck
    refine mem_slugsOf_crowd.mpr ?_
    by_cases hone : m = 1
    · exact ⟨2, by decide, by decide, by rw [candidate, if_pos hone, hsecond]⟩
    · exact ⟨m, by omega, by omega, by rw [candidate, if_neg hone]⟩

end Reeva
