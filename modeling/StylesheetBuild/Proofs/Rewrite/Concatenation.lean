/-
Rewriting a stylesheet in two parts.

* **`rewriteReferences_append`** — references are rewritten one list after the other, and the second
  list only if the first one does not fail;
* **`interleave_gapsFrom_append`** — a stylesheet spliced at references on both sides of a cut is
  spliced on either side;
* **`rewrite_append`** — so rewriting distributes over the concatenation of stylesheets that no
  match runs across;
* **`rewrite_append_at_end`** — and not if one runs across, even up to the very end.
-/
import StylesheetBuild.Proofs.Reference.Parted
import StylesheetBuild.Proofs.Rewrite.Splice

namespace StylesheetBuild

open Text

namespace Rewrite

open Reference (Form scan shift Parted)

/-! ### References one after another -/

theorem rewriteReferences_append (context : Context) (rs ss : List Reference) :
    rewriteReferences context (rs ++ ss) =
      match rewriteReferences context rs with
      | (events, .error error) => (events, .error error)
      | (events, .ok rewritten) =>
        (events ++ (rewriteReferences context ss).1,
          (rewriteReferences context ss).2.map (rewritten ++ ·)) := by
  induction rs with
  | nil =>
    show rewriteReferences context ss = (_, (rewriteReferences context ss).2.map _)
    obtain ⟨events, result⟩ := rewriteReferences context ss
    cases result <;> rfl
  | cons r rest ih =>
    rw [List.cons_append, rewriteReferences, rewriteReferences]
    cases rewriteReference context r.argument with
    | error error => rfl
    | ok first =>
      simp only [ih]
      obtain ⟨events, result⟩ := rewriteReferences context rest
      obtain ⟨events', result'⟩ := rewriteReferences context ss
      cases result with
      | error error => rfl
      | ok rewritten => cases result' <;> simp [Except.map]

/-- What becomes of a reference does not depend on where it stands. -/
theorem rewriteReferences_map_shift (context : Context) (n : Nat) (rs : List Reference) :
    rewriteReferences context (rs.map (shift n)) = rewriteReferences context rs := by
  induction rs with
  | nil => rfl
  | cons r rest ih =>
    rw [List.map_cons, rewriteReferences, rewriteReferences, ih, Reference.argument_shift]

theorem length_of_rewriteReferences {context : Context} {rs : List Reference}
    {rewritten : List Rewritten} (h : (rewriteReferences context rs).2 = .ok rewritten) :
    rewritten.length = rs.length := by
  induction rs generalizing rewritten with
  | nil =>
    obtain rfl := Except.ok.inj h
    rfl
  | cons r rest ih =>
    rw [rewriteReferences] at h
    cases hfirst : rewriteReference context r.argument with
    | error error =>
      rw [hfirst] at h
      exact absurd h (by simp)
    | ok first =>
      rw [hfirst] at h
      cases hrest : (rewriteReferences context rest).2 with
      | error error =>
        simp only [hrest] at h
        exact absurd h (by simp [Except.map])
      | ok others =>
        simp only [hrest] at h
        obtain rfl := Except.ok.inj h
        rw [List.length_cons, List.length_cons, ih hrest]

/-! ### Gaps on both sides of a cut -/

theorem gapsFrom_map_shift (n position : Nat) (css : Text) (ss : List Reference) :
    gapsFrom (position + n) css (ss.map (shift n)) = gapsFrom position css ss := by
  induction ss generalizing position css with
  | nil => rfl
  | cons s rest ih =>
    rw [List.map_cons, gapsFrom, gapsFrom, Reference.start_shift, Reference.finish_shift,
      Nat.add_sub_add_right, Nat.add_sub_add_right, ih]

/-- The text from a position on, spliced at references behind a cut. -/
theorem interleave_gapsFrom_behind {a : Text} {position : Nat} (hposition : position ≤ a.length)
    (b : Text) (ss : List Reference) (texts : List Text) :
    interleave (gapsFrom position ((a ++ b).drop position) (ss.map (shift a.length))) texts =
      a.drop position ++ interleave (gapsFrom 0 b ss) texts := by
  have hdrop : (a ++ b).drop position = a.drop position ++ b :=
    List.drop_append_of_le_length hposition
  cases ss with
  | nil =>
    rw [List.map_nil, gapsFrom, gapsFrom, hdrop]
    cases texts <;> simp [interleave]
  | cons s rest =>
    have htake : (a ++ b).take (s.start + a.length) = a ++ b.take s.start := by
      rw [Nat.add_comm, List.take_length_add_append]
    have hbehind : (a ++ b).drop (s.finish + a.length) = b.drop s.finish := by
      rw [Nat.add_comm, List.drop_length_add_append]
    have hfirst : position ≤ (s.shift a.length).start :=
      Nat.le_trans hposition (Nat.le_add_left _ _)
    rw [List.map_cons, gapsFrom_cons hfirst, Reference.start_shift, Reference.finish_shift, htake,
      hbehind, gapsFrom_map_shift, List.drop_append_of_le_length hposition, gapsFrom]
    cases texts <;> simp [interleave]

theorem interleave_gapsFrom_append {a : Text} {rs : List Reference} {position : Nat}
    {texts : List Text} (b : Text) (ss : List Reference) (others : List Text)
    (hposition : position ≤ a.length) (hdisjoint : rs.Pairwise fun r s => r.finish ≤ s.start)
    (hstart : ∀ r ∈ rs, position ≤ r.start) (hfinish : ∀ r ∈ rs, r.finish ≤ a.length)
    (hlength : texts.length = rs.length) :
    interleave (gapsFrom position ((a ++ b).drop position) (rs ++ ss.map (shift a.length)))
        (texts ++ others) =
      interleave (gapsFrom position (a.drop position) rs) texts ++
        interleave (gapsFrom 0 b ss) others := by
  induction rs generalizing position texts with
  | nil =>
    obtain rfl := List.length_eq_zero_iff.mp hlength
    rw [List.nil_append, List.nil_append, interleave_gapsFrom_behind hposition]
    rfl
  | cons r rest ih =>
    obtain ⟨hr, hrest⟩ := List.pairwise_cons.mp hdisjoint
    obtain ⟨text, texts, rfl⟩ := List.exists_cons_of_length_eq_add_one hlength
    have hfirst := hstart r List.mem_cons_self
    have hlast := hfinish r List.mem_cons_self
    have hinside : r.start ≤ a.length := Nat.le_trans (Nat.le_add_right _ _) hlast
    have hmore := ih hlast hrest hr (fun s hs => hfinish s (List.mem_cons_of_mem r hs))
      (Nat.succ.inj hlength)
    rw [List.cons_append, List.cons_append, gapsFrom_cons hfirst, gapsFrom_cons hfirst, interleave,
      interleave, hmore, List.take_append_of_le_length hinside]
    simp only [List.append_assoc]

/-! ### Stylesheets -/

/-- **Rewriting distributes over concatenation.**  Where no match begins in the first text and ends
in the second one or at its end, the references in both texts together are those in the first and those in the
second, the latter shifted, also in bytes, by the length of the first; the whole fails as the first
text does, or else as the second does, and otherwise becomes what the two become, with the missing
assets of both. -/
theorem rewrite_append (context : Context) (a b : Text) (h : Parted a b) :
    scan (a ++ b) = scan a ++ (scan b).map (shift a.length) ∧
    (∀ r ∈ scan a, r.byteSpan (a ++ b) = r.byteSpan a) ∧
    (∀ r ∈ scan b, (r.shift a.length).byteSpan (a ++ b) =
      (byteLength a + (r.byteSpan b).1, byteLength a + (r.byteSpan b).2)) ∧
    rewrite context (a ++ b) =
      match rewrite context a with
      | (events, .error error) => (events, .error error)
      | (events, .ok sheet) =>
        (events ++ (rewrite context b).1, (rewrite context b).2.map fun other =>
          ⟨sheet.css ++ other.css, sheet.missing ++ other.missing⟩) := by
  have hscan := Reference.scan_append h
  refine ⟨hscan, fun r hr => Reference.byteSpan_append_of_mem_scan hr,
    fun r _ => Reference.byteSpan_append_shift a b r, ?_⟩
  have hfinish : ∀ r ∈ scan a, r.finish ≤ a.length := fun r hr =>
    Reference.finish_le_length (Reference.mem_scan_iff.mp hr).1
  have happend := rewriteReferences_append context (scan a) ((scan b).map (shift a.length))
  rw [rewriteReferences_map_shift] at happend
  rw [rewrite, rewrite, rewrite, hscan, happend]
  cases ha : rewriteReferences context (scan a) with
  | mk events result =>
    cases result with
    | error error => rfl
    | ok rewritten =>
      cases hb : rewriteReferences context (scan b) with
      | mk events' result' =>
        cases result' with
        | error error => rfl
        | ok others =>
          have hlength : (rewritten.map (·.url)).length = (scan a).length := by
            rw [List.length_map]
            exact length_of_rewriteReferences (congrArg Prod.snd ha)
          have hcss := interleave_gapsFrom_append b (scan b) (others.map (·.url)) (Nat.zero_le _)
            (Reference.scan_disjoint a) (fun r _ => Nat.zero_le r.start) hfinish hlength
          simp only [Except.map, List.map_append, List.filterMap_append]
          rw [List.drop_zero, List.drop_zero] at hcss
          rw [hcss]

/-- The first text ends in an opening that nothing closes, and the second one begins with a
reference into an unknown module. -/
theorem rewrite_append_unclosed :
    let a := "p\x7bbackground:url(/x.png)\x7durl( '".toList
    let b := "@import 'lib:a.css';".toList
    let context : Context :=
      ⟨⟨"app".toList, none, Path.ofString "/srv/app", Path.empty⟩,
        Path.ofString "/srv/app/main.css", fun _ => none, .ofMemory [], .standard⟩
    Parted a b ∧
      scan (a ++ b) = [⟨.url, "/x.png".toList, 17⟩, ⟨.importRule, "lib:a.css".toList, 40⟩] ∧
      rewrite context (a ++ b) = ([], .error (.moduleNotFound "lib".toList context.source)) := by
  intro a b context
  have hparted : Parted a b := by decide +kernel
  have ha : scan a = [⟨.url, "/x.png".toList, 17⟩] := by
    rw [Reference.scan_of_imports_eq_nil (by decide +kernel)]
    decide +kernel
  have hb : scan b = [⟨.importRule, "lib:a.css".toList, 9⟩] := by
    rw [Reference.scan_of_urls_eq_nil (by decide +kernel)]
    decide +kernel
  obtain ⟨hscan, -, -, hrewrite⟩ := rewrite_append context a b hparted
  refine ⟨hparted, ?_, ?_⟩
  · rw [hscan, ha, hb]
    rfl
  · rw [hrewrite, rewrite, rewrite, ha, hb]
    rfl

/-- A match that ends at the very end of both texts is enough to make a difference: the first text
ends in an opening, and the second one closes a reference into an unknown module. -/
theorem rewrite_append_at_end :
    let a := "url(".toList
    let b := "lib:a.png)".toList
    let context : Context :=
      ⟨⟨"app".toList, none, Path.ofString "/srv/app", Path.empty⟩,
        Path.ofString "/srv/app/main.css", fun _ => none, .ofMemory [], .standard⟩
    (∀ (form : Form) (s t : Text), s <:+ a → t <+: b → s ≠ [] → t ≠ [] → t ≠ b →
      ¬ form.Matches (s ++ t)) ∧
    scan (a ++ b) = [⟨.url, "lib:a.png".toList, 4⟩] ∧ scan a = [] ∧ scan b = [] ∧
    rewrite context (a ++ b) = ([], .error (.moduleNotFound "lib".toList context.source)) ∧
    rewrite context a = ([], .ok ⟨a, []⟩) ∧ rewrite context b = ([], .ok ⟨b, []⟩) := by
  intro a b context
  have hinside : ∀ s ∈ a.tails, ∀ t ∈ b.inits, s ≠ [] → t ≠ [] → t ≠ b →
      ¬ Form.url.Matches (s ++ t) ∧ ¬ Form.importRule.Matches (s ++ t) := by
    decide +kernel
  have hboth : scan (a ++ b) = [⟨.url, "lib:a.png".toList, 4⟩] := by
    rw [Reference.scan_of_imports_eq_nil (by decide +kernel)]
    decide +kernel
  have ha : scan a = [] := by
    rw [Reference.scan_of_imports_eq_nil (by decide +kernel)]
    decide +kernel
  have hb : scan b = [] := by
    rw [Reference.scan_of_imports_eq_nil (by decide +kernel)]
    decide +kernel
  refine ⟨fun form s t hs ht hsne htne hend => ?_, hboth, ha, hb, ?_,
    rewrite_of_scan_eq_nil context ha, rewrite_of_scan_eq_nil context hb⟩
  · obtain ⟨hurl, himport⟩ :=
      hinside s ((List.mem_tails s a).mpr hs) t ((List.mem_inits t b).mpr ht) hsne htne hend
    cases form with
    | url => exact hurl
    | importRule => exact himport
  · rw [rewrite, hboth]
    rfl

end Rewrite

end StylesheetBuild
