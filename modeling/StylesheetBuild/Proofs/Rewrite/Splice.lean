/-
Rewriting a stylesheet is an exact splice, all or nothing.

The arguments of the references are cut out of a stylesheet, and what replaces each of them is put
in its place between gaps that stay as they were.

* **`isCut_gapsFrom`** — the gaps and the arguments make up the stylesheet, each argument at the
  place of its reference;
* **`Context.becomes_replacement`** — what a reference becomes, said without the steps that lead
  there: the argument itself, or the rendered pattern with a digest in the path under exactly the
  conditions for one;
* **`rewrite_splices`** — a stylesheet fails with its first reference into an unknown module, and
  otherwise becomes its gaps with the replacements between them.
-/
import StylesheetBuild.Proofs.Digest.Extension
import StylesheetBuild.Proofs.Reference.Spans
import StylesheetBuild.Proofs.Rewrite.Address

namespace StylesheetBuild.Rewrite

/-! ### Cutting -/

/-- `gaps` is what the arguments of `refs` leave of `css`: one gap in front of each argument and
one behind the last, and in front of each argument there is as much as the reference says. -/
structure IsCut (css : Text) (refs : List Reference) (gaps : List Text) : Prop where
  length : gaps.length = refs.length + 1
  whole : interleave gaps (refs.map (·.argument)) = css
  start : ∀ i r, refs[i]? = some r →
    interleave (gaps.take (i + 1)) ((refs.take i).map (·.argument)) = css.take r.start

/-- The characters from one position to another, and from there on. -/
theorem drop_take_append_drop (text : Text) {m n : Nat} (h : m ≤ n) :
    (text.take n).drop m ++ text.drop n = text.drop m := by
  obtain ⟨k, rfl⟩ := Nat.exists_eq_add_of_le h
  rw [List.drop_take, Nat.add_sub_cancel_left, ← List.drop_drop, List.take_append_drop]

theorem drop_take_append_drop_take (text : Text) {l m n : Nat} (hl : l ≤ m) (hm : m ≤ n) :
    (text.take m).drop l ++ (text.take n).drop m = (text.take n).drop l := by
  have h := drop_take_append_drop (text.take n) hl
  rwa [List.take_take, Nat.min_eq_left hm] at h

/-- The argument of a reference stands in `css` where the reference says. -/
def Fits (css : Text) (r : Reference) : Prop :=
  (css.take r.finish).drop r.start = r.argument

theorem length_gapsFrom (position : Nat) (css : Text) (refs : List Reference) :
    (gapsFrom position css refs).length = refs.length + 1 := by
  induction refs generalizing position css with
  | nil => rfl
  | cons r rest ih => rw [gapsFrom, List.length_cons, ih, List.length_cons]

/-- The gap in front of a reference, in a text that begins at `position`. -/
theorem gapsFrom_cons {css : Text} {r : Reference} {position : Nat} (h : position ≤ r.start)
    (rest : List Reference) :
    gapsFrom position (css.drop position) (r :: rest) =
      (css.take r.start).drop position :: gapsFrom r.finish (css.drop r.finish) rest := by
  have hfinish : position ≤ r.finish := Nat.le_trans h (Nat.le_add_right _ _)
  rw [gapsFrom, List.drop_take, List.drop_drop, Nat.add_sub_cancel' hfinish]

theorem interleave_gapsFrom {css : Text} {refs : List Reference} {position : Nat}
    (hdisjoint : refs.Pairwise fun r s => r.finish ≤ s.start)
    (hposition : ∀ r ∈ refs, position ≤ r.start) (hfits : ∀ r ∈ refs, Fits css r) :
    interleave (gapsFrom position (css.drop position) refs) (refs.map (·.argument)) =
      css.drop position := by
  induction refs generalizing position with
  | nil => rfl
  | cons r rest ih =>
    obtain ⟨hr, hrest⟩ := List.pairwise_cons.mp hdisjoint
    have hstart := hposition r List.mem_cons_self
    have hfit : (css.take r.finish).drop r.start = r.argument := hfits r List.mem_cons_self
    have hle : r.start ≤ r.finish := Nat.le_add_right _ _
    rw [gapsFrom_cons hstart, List.map_cons, interleave,
      ih hrest hr fun s hs => hfits s (List.mem_cons_of_mem r hs), ← hfit,
      drop_take_append_drop_take css hstart hle,
      drop_take_append_drop css (Nat.le_trans hstart hle)]

theorem interleave_take_gapsFrom {css : Text} {refs : List Reference} {position : Nat}
    (hdisjoint : refs.Pairwise fun r s => r.finish ≤ s.start)
    (hposition : ∀ r ∈ refs, position ≤ r.start) (hfits : ∀ r ∈ refs, Fits css r) {i : Nat}
    {r : Reference} (hr : refs[i]? = some r) :
    interleave ((gapsFrom position (css.drop position) refs).take (i + 1))
      ((refs.take i).map (·.argument)) = (css.take r.start).drop position := by
  induction refs generalizing position i with
  | nil => exact absurd hr (by simp)
  | cons s rest ih =>
    obtain ⟨hs, hrest⟩ := List.pairwise_cons.mp hdisjoint
    have hstart := hposition s List.mem_cons_self
    have hle : s.start ≤ s.finish := Nat.le_add_right _ _
    rw [gapsFrom_cons hstart, List.take_succ_cons]
    cases i with
    | zero =>
      rw [List.getElem?_cons_zero, Option.some_inj] at hr
      subst hr
      rfl
    | succ i =>
      rw [List.getElem?_cons_succ] at hr
      have hfit : (css.take s.finish).drop s.start = s.argument := hfits s List.mem_cons_self
      have hnext : s.finish ≤ r.start := hs r (List.mem_of_getElem? hr)
      rw [List.take_succ_cons, List.map_cons, interleave,
        ih hrest hs (fun t ht => hfits t (List.mem_cons_of_mem s ht)) hr, ← hfit,
        drop_take_append_drop_take css hstart hle,
        drop_take_append_drop_take css (Nat.le_trans hstart hle) hnext]

theorem isCut_gapsFrom {css : Text} {refs : List Reference}
    (hdisjoint : refs.Pairwise fun r s => r.finish ≤ s.start) (hfits : ∀ r ∈ refs, Fits css r) :
    IsCut css refs (gapsFrom 0 css refs) where
  length := length_gapsFrom 0 css refs
  whole := interleave_gapsFrom hdisjoint (fun r _ => Nat.zero_le r.start) hfits
  start _ _ hr := interleave_take_gapsFrom hdisjoint (fun r _ => Nat.zero_le r.start) hfits hr

theorem fits_of_mem_scan {css : Text} {r : Reference} (h : r ∈ Reference.scan css) :
    Fits css r := by
  obtain ⟨before, after, rfl, hstart⟩ :=
    Reference.argument_eq_slice (Reference.mem_scan_iff.mp h).1
  have hfinish : r.finish = (before ++ r.argument).length := by
    rw [Reference.finish, ← hstart, List.length_append]
  rw [Fits, hfinish, List.take_left, ← hstart, List.drop_left]

/-! ### What a reference becomes -/

/-- The URL of an address carries the digest of `bytes` between `stem` and `extension`. -/
structure Context.Digested (context : Context) (a : Address) (bytes : List UInt8)
    (stem extension : Text) : Prop where
  mode : context.options.mode = .production
  busting : context.options.busting = .contentHash
  holds : context.files.holds a.file
  read : context.files.read a.file = .ok bytes
  extension : Digest.HasExtension a.path stem extension

/-- The path under which an asset is served: with a digest exactly where there has to be one. -/
inductive Context.Serves (context : Context) (a : Address) : Text → Prop
  | digested {bytes : List UInt8} {stem extension : Text}
      (h : context.Digested a bytes stem extension) :
      Serves context a (stem ++ '-' :: (Digest.content bytes ++ '.' :: extension))
  | plain (h : ∀ bytes stem extension, ¬ context.Digested a bytes stem extension) :
      Serves context a a.path

/-- What takes the place of a reference written `raw`. -/
inductive Context.Becomes (context : Context) (raw : Text) : Text → Prop
  | external (h : Target.classify raw = .external) : Becomes context raw raw
  | asset {a : Address} {path : Text} (ha : context.address? raw = some a)
      (hpath : context.Serves a path) :
      Becomes context raw
        (context.options.pattern.render a.owner.name a.owner.version (path ++ a.suffix))

namespace Context

theorem hashesContent_iff (context : Context) :
    context.options.hashesContent ↔
      context.options.mode = .production ∧ context.options.busting = .contentHash := by
  simp [Options.hashesContent]

theorem serves_served (context : Context) (a : Address) : context.Serves a (context.served a) := by
  rw [served]
  by_cases hholds : context.files.holds a.file
  · rw [if_pos hholds, withDigest]
    by_cases hhash : context.options.hashesContent
    · rw [if_pos hhash]
      obtain ⟨hmode, hbusting⟩ := context.hashesContent_iff.mp hhash
      cases hread : context.files.read a.file with
      | error error =>
        refine .plain fun bytes stem extension h => ?_
        rw [h.read] at hread
        exact absurd hread (by simp)
      | ok bytes =>
        by_cases hext : ∃ stem extension, Digest.HasExtension a.path stem extension
        · obtain ⟨stem, extension, hext⟩ := hext
          simp only [Digest.insert_of_hasExtension hext]
          exact .digested ⟨hmode, hbusting, hholds, hread, hext⟩
        · have hnone : ∀ stem extension, ¬ Digest.HasExtension a.path stem extension :=
            fun stem extension h => hext ⟨stem, extension, h⟩
          simp only [Digest.insert_of_not_hasExtension hnone]
          exact .plain fun _ stem extension h => hnone stem extension h.extension
    · rw [if_neg hhash]
      exact .plain fun _ _ _ h => hhash (context.hashesContent_iff.mpr ⟨h.mode, h.busting⟩)
  · rw [if_neg hholds]
    exact .plain fun _ _ _ h => hholds h.holds

/-- A reference that does not fail becomes its replacement. -/
theorem becomes_replacement {context : Context} {raw : Text} (h : context.unknown? raw = none) :
    context.Becomes raw (context.replacement raw) := by
  rw [replacement]
  cases haddress : context.address? raw with
  | some a => exact .asset haddress (context.serves_served a)
  | none =>
    refine .external ?_
    rw [address?] at haddress
    rw [unknown?] at h
    cases hclass : Target.classify raw with
    | external => rfl
    | inModule name path =>
      simp only [hclass, Option.map_eq_none_iff] at haddress
      simp [hclass, haddress] at h
    | relative path =>
      simp [hclass] at haddress

end Context

/-- **Rewriting is an exact splice, all or nothing.**  A stylesheet with a reference into an
unknown module fails with the name in the first such reference and the path of the stylesheet.
Any other one is cut at its references into gaps, and each gap stays in its place while each
argument gives way to what it becomes; reported are the references to files that do not exist, in
their order. -/
theorem rewrite_splices (context : Context) (css : Text) :
    match (Reference.scan css).findSome? fun r => context.unknown? r.argument with
    | some name => (rewrite context css).2 = .error (.moduleNotFound name context.source)
    | none => ∃ (sheet : Stylesheet) (gaps urls : List Text),
        (rewrite context css).2 = .ok sheet ∧
        IsCut css (Reference.scan css) gaps ∧
        List.Forall₂ (fun r url => context.Becomes r.argument url) (Reference.scan css) urls ∧
        sheet.css = interleave gaps urls ∧
        sheet.missing = (Reference.scan css).filterMap fun r =>
          (context.address? r.argument).bind fun a =>
            if context.files.holds a.file then none else some ⟨r.argument, a.file⟩ := by
  have hrewrite := context.rewrite_eq css
  rw [Context.firstUnknown?] at hrewrite
  cases h : (Reference.scan css).findSome? fun r => context.unknown? r.argument with
  | some name =>
    rw [h] at hrewrite
    exact hrewrite
  | none =>
    rw [h] at hrewrite
    have hknown : ∀ r ∈ Reference.scan css, context.unknown? r.argument = none :=
      List.findSome?_eq_none_iff.mp h
    refine ⟨_, _, _, hrewrite, isCut_gapsFrom (Reference.scan_disjoint css) fun r hr =>
      fits_of_mem_scan hr, ?_, rfl, rfl⟩
    rw [List.forall₂_map_right_iff, List.forall₂_same]
    exact fun r hr => Context.becomes_replacement (hknown r hr)

end StylesheetBuild.Rewrite
