import TwinShell.Proofs.Path.Below

/-!
# Paths as lists of segments

The operations on paths cut and compare texts, and those who use them think in segments. On paths in canonical form the two agree: the parent of a path has all of its segments but the last, which is the name of the path; joining the two gives the path again; and one path lies below another exactly if its segments start with those of the other. Resolving leads to a path in canonical form from anywhere, and cleaning a text once is enough.

The root is the one exception. Its text is the slash that elsewhere stands between two segments, so no other path lies below it.
-/

namespace TwinShell.Path

variable {p q : String}

theorem clean_clean (path : String) : clean (clean path) = clean path := by
  have hkept : (segments path).filter (· ≠ "") = segments path := named_of_not_mem (not_mem_segments path)
  rw [clean, clean, segments_ofSegments fun s hs => not_slash_of_mem_segments hs, hkept]

/-- Where the current path is in canonical form, so is what a path is resolved to. -/
theorem Canonical.resolve {raw current : String} (hcurrent : Canonical current) (hselection : raw ≠ selection)
    (hminus : raw ≠ "-") (previous : String) : Canonical (Path.resolve raw current previous) := by
  have hstart := isWord_start raw hcurrent
  exact ⟨_, resolve_eq_named hselection hminus hstart previous,
    isSegment_named (isWord_expandFirst (isWord_gathered hstart))⟩

theorem Canonical.join_parent_baseName (h : Canonical p) (hroot : p ≠ "/") :
    join (Path.parent p) (baseName p) = p := by
  obtain ⟨segs, s, rfl, hsegs, hs⟩ := h.eq_child hroot
  rw [parent_ofSegments segs hs.no_slash,
    baseName_ofSegments segs hs.no_slash fun t ht => (hsegs t ht).no_slash,
    join_child hsegs hs.no_slash hs.ne_empty]

/-- A path below the root would start with two slashes. -/
theorem Canonical.not_isUnder_root (h : Canonical p) (hroot : p ≠ "/") : ¬isUnder p "/" := by
  intro hunder
  obtain ⟨rest, hrest⟩ := (isUnder_iff.1 hunder).resolve_left hroot
  obtain ⟨c, cs, htext, hc⟩ := intercalate_eq_cons (h.segments_ne_nil hroot) h.isSegment
  have hpath := congrArg String.toList h.ofSegments_segments
  rw [ofSegments, String.toList_append, htext, hrest] at hpath
  exact hc (List.cons.inj (List.append_cancel_left hpath)).1

theorem Canonical.isUnder_parent_iff (h : Canonical p) (hroot : p ≠ "/") :
    isUnder p (Path.parent p) ↔ Path.parent p ≠ "/" := by
  refine ⟨fun hunder hparent => ?_, (isUnder_self_parent p).resolve_left⟩
  rw [hparent] at hunder
  exact h.not_isUnder_root hroot hunder

/-- The segments of a path below another go on after those of the other. -/
theorem Canonical.isUnder_iff_prefix (hp : Canonical p) (hq : Canonical q) (hroot : q ≠ "/") :
    isUnder p q ↔ segments q <+: segments p := by
  constructor
  · intro h
    exact ⟨namesBelow q p, (segments_of_isUnder h).symm⟩
  · rintro ⟨names, hnames⟩
    rw [← hp.ofSegments_segments, ← hnames]
    by_cases hnil : names = []
    · rw [hnil, List.append_nil, hq.ofSegments_segments]
      exact isUnder_refl q
    · refine isUnder_iff.2 (.inr ⟨("/".intercalate names).toList, ?_⟩)
      rw [ofSegments_append (hq.segments_ne_nil hroot) hnil, hq.ofSegments_segments, ofSegments,
        String.toList_append, String.toList_append]
      rfl

/-- Resolving and cleaning give canonical form, and on paths in canonical form the operations on texts are operations on segments: a path is the child of its parent, lies below it unless the parent is the root, and lies below another path exactly if its segments start with those of the other. -/
theorem operations_agree_with_segments :
    (∀ raw current previous, raw ≠ selection → raw ≠ "-" → Canonical current →
      Canonical (resolve raw current previous)) ∧
    (∀ path, clean (clean path) = clean path) ∧
    (∀ p, Canonical p → p ≠ "/" → join (parent p) (baseName p) = p ∧ Canonical (parent p) ∧
      (isUnder p (parent p) ↔ parent p ≠ "/")) ∧
    ∀ p q, Canonical p → Canonical q → q ≠ "/" → (isUnder p q ↔ segments q <+: segments p) := by
  refine ⟨fun raw current previous hselection hminus hcurrent => ?_, clean_clean, fun p hp hroot => ?_, ?_⟩
  · exact hcurrent.resolve hselection hminus previous
  · exact ⟨hp.join_parent_baseName hroot, hp.parent, hp.isUnder_parent_iff hroot⟩
  · exact fun p q hp hq hroot => hp.isUnder_iff_prefix hq hroot

/-- The text of the second path starts with that of the first, and its segments do not. -/
theorem operations_agree_with_segments_stray :
    ("..//P/." ≠ selection ∧ "..//P/." ≠ "-" ∧ Canonical "/Logical/Tags" ∧
      Canonical (resolve "..//P/." "/Logical/Tags" "-")) ∧
    (Canonical "/Physical/Stray" ∧ "/Physical/Stray" ≠ "/" ∧ isUnder "/Physical/Stray" "/Physical") ∧
    Canonical "/Physical/StrayCat" ∧ ¬isUnder "/Physical/StrayCat" "/Physical/Stray" := by
  obtain ⟨hresolve, -, hparent, hunder⟩ := operations_agree_with_segments
  have htags : Canonical "/Logical/Tags" := by decide
  have hstray : Canonical "/Physical/Stray" := by decide
  have hcat : Canonical "/Physical/StrayCat" := by decide
  refine ⟨⟨by decide, by decide, htags, hresolve _ _ _ (by decide) (by decide) htags⟩, ⟨hstray, by decide, ?_⟩,
    hcat, ?_⟩
  · exact (hparent _ hstray (by decide)).2.2.2 (by decide)
  · exact mt (hunder _ _ hcat hstray (by decide)).1 (by decide)

end TwinShell.Path
