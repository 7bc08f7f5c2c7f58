import SpanRegex.Proofs.Sweeps

/-! # The order of all matches

The matches of a text ascend, by their starts and then by their ends, apart from empty ones that are
found further on than they were searched from. The search that comes next starts at such a match, where it
finds it once more.

* `Span.Before`: the order of spans.
* `Probe.Restarts`: a search starts from an empty match that another has found further on.
* `Sweep.again`: such a search finds the match again.
* `findAll_ascending`: the matches ascend, apart from these.
-/

namespace SpanRegex
set_option autoImplicit false

/-- The one span begins before the other, or it begins there and ends before the other. -/
def Span.Before (a b : Span) : Prop := a.start < b.start ∨ a.start = b.start ∧ a.stop < b.stop

instance (a b : Span) : Decidable (a.Before b) := inferInstanceAs (Decidable (_ ∨ _))

theorem Match.span_congr {a b : Match} (h : a.captures = b.captures) : a.span = b.span := by
  have ha := a.whole
  rw [h, b.whole] at ha
  exact (Option.some.inj ha).symm

namespace Regex

/-- The search `y` starts from an empty match that the search `x` has found beyond its own start. -/
def Probe.Restarts (x y : Probe) (hit : Match) : Prop :=
  x.start < hit.span.start ∧ hit.isEmpty = true ∧ y.start = hit.span.start

variable {r r' : Regex} {text : Text} {fuel start : Nat} {probes : List Probe}

section

variable (hnumbered : r.matcher.pattern.Numbered) (hpins : r.matcher.pattern.body.unpinned = true)
  (h : Sweep (.onward text) fuel start r probes r')

include hnumbered hpins h

/-- A match is before those that later searches find, unless one of them starts from it. -/
theorem Sweep.ascending : probes.Pairwise fun x y => ∀ hit again, x.found = some hit →
    y.found = some again → hit.span.Before again.span ∨ x.Restarts y hit := by
  have hspans := h.spans hnumbered hpins
  refine (h.pairwise (Query.bound_onward text)).imp_of_mem ?_
  rintro x y hx hy ⟨hit, hfound, hresume⟩ hit' again hfound' hagain
  obtain rfl := Option.some.inj (hfound.symm.trans hfound')
  obtain ⟨hstart, hle, -⟩ := hspans x hx hit hfound
  obtain ⟨hstart', -, -⟩ := hspans y hy again hagain
  by_cases hbefore : hit.span.start < again.span.start
  · exact .inl (.inl hbefore)
  · -- The search resumes no further on than where the match begins, so the match is empty.
    right
    unfold resume at hresume
    split at hresume
    · exact ⟨by omega, by simpa [Match.isEmpty] using by omega, by omega⟩
    · omega

/-- A search that starts where a match begins finds this match. -/
theorem Sweep.again (hlimit : r.matcher.limit = none) {x y : Probe} (hx : x ∈ probes) (hy : y ∈ probes)
    {hit : Match} (hfound : x.found = some hit) (hstart : y.start = hit.span.start) :
    ∃ again, y.found = some again ∧ again.span = hit.span := by
  have hspans := h.spans hnumbered hpins
  have hleftmost := h.leftmost hnumbered hpins hlimit
  obtain ⟨-, hle, hstop⟩ := hspans x hx hit hfound
  have hhit : r.matcher.outcomeAt fuel { text } hit.span.start = some (.matched, hit.captures) := by
    rcases hleftmost x hx with ⟨hnone, -⟩ | ⟨hit', hfound', hhit', -⟩
    · simp [hfound] at hnone
    · obtain rfl := Option.some.inj (hfound.symm.trans hfound')
      exact hhit'
  have hnot : r.matcher.outcomeAt fuel { text } hit.span.start ≠ some (.failed, {}) := by simp [hhit]
  rcases hleftmost y hy with ⟨-, hall⟩ | ⟨again, hagain, houtcome, hearlier⟩
  · exact absurd (hall hit.span.start (Nat.le_of_eq hstart) (Nat.le_trans hle hstop)) hnot
  · have hbegin : again.span.start = hit.span.start := by
      refine Nat.le_antisymm (Nat.le_of_not_lt fun hlt => ?_) (hstart ▸ (hspans y hy again hagain).1)
      exact hnot (hearlier _ (Nat.le_of_eq hstart) hlt)
    rw [hbegin, hhit] at houtcome
    have hcaptures := (Prod.mk.inj (Option.some.inj houtcome)).2
    exact ⟨again, hagain, Match.span_congr hcaptures.symm⟩

/-- An empty match that is found beyond the start of its search is found again. -/
theorem Sweep.restarts (hlimit : r.matcher.limit = none) {x : Probe} (hx : x ∈ probes) {hit : Match}
    (hfound : x.found = some hit) (hbeyond : x.start < hit.span.start) (hempty : hit.isEmpty = true) :
    ∃ y ∈ probes, x.Restarts y hit ∧ ∃ again, y.found = some again ∧ again.span = hit.span := by
  obtain ⟨-, hle, hstop⟩ := h.spans hnumbered hpins x hx hit hfound
  have hspan : hit.span.stop ≤ hit.span.start := by simpa [Match.isEmpty] using hempty
  have hresume : resume x.start hit = hit.span.start := by
    unfold resume
    split <;> omega
  obtain ⟨y, hy, hstart⟩ := h.resumed (Query.bound_onward text) x hx hit hfound (by omega)
  rw [hresume] at hstart
  exact ⟨y, hy, ⟨hbeyond, hempty, hstart⟩, h.again hnumbered hpins hlimit hx hy hfound hstart⟩

end

end Regex

/-- Of any two matches of a text the first is before the second, or it is an empty one found further on
than it was searched from, and the second is found by the search that starts from it. Without a visit
limit this search is made, and it finds the same span once more. If all empty matches are found where they
were searched from, the matches ascend. -/
theorem findAll_ascending {o : Pattern.Options} {cs : List Char} {p : Pattern}
    (hp : Pattern.compile o cs = .ok p) (hpins : p.body.unpinned = true) {r r' : Regex}
    (hr : r.pattern = p) {text : Text} {fuel : Nat} {hits : List Match}
    (h : r.findAll fuel text = some (hits, r')) :
    ∃ probes, Regex.Sweep (.onward text) fuel 0 r probes r' ∧
      hits = probes.filterMap Regex.Probe.found ∧
      (probes.Pairwise fun x y => ∀ hit again, x.found = some hit → y.found = some again →
        hit.span.Before again.span ∨ x.Restarts y hit) ∧
      (r.matcher.limit = none → ∀ x ∈ probes, ∀ hit, x.found = some hit →
        x.start < hit.span.start → hit.isEmpty = true →
        ∃ y ∈ probes, x.Restarts y hit ∧ ∃ again, y.found = some again ∧ again.span = hit.span) ∧
      ((∀ x ∈ probes, ∀ hit, x.found = some hit → hit.isEmpty = true → hit.span.start = x.start) →
        (hits.map Match.span).Pairwise Span.Before) := by
  subst hr
  have hnumbered : r.matcher.pattern.Numbered := Pattern.numbered_of_compile hp
  obtain ⟨probes, hsweep, rfl⟩ := Regex.sweep_of_findAll h
  have hascending := hsweep.ascending hnumbered hpins
  refine ⟨probes, hsweep, rfl, hascending, fun hlimit x hx hit => hsweep.restarts hnumbered hpins hlimit hx,
    fun hempty => ?_⟩
  refine List.pairwise_map.2 (List.Pairwise.filterMap _ ?_ (hascending.imp_of_mem (S := fun x y =>
    ∀ hit again, x.found = some hit → y.found = some again → hit.span.Before again.span) ?_))
  · exact fun x y hxy hit hfound again hagain => hxy hit again hfound hagain
  · intro x y hx _ hxy hit again hfound hagain
    refine (hxy hit again hfound hagain).resolve_right fun ⟨hbeyond, hisEmpty, _⟩ => ?_
    have hstart := hempty x hx hit hfound hisEmpty
    omega

/-- The pattern `b+`. -/
def someBs : Pattern where
  options := {}
  names := .empty
  body := .box 1 (.loop ⟨1, none, false⟩) (.leaf 0 (.unit (.literal 98)) .nil) .nil
  rootId := 2

/-- The matches in `abbcb` are not empty, and so they ascend. -/
theorem findAll_someBs : Pattern.compile {} "b+".toList = .ok someBs ∧
    ∃ hits r', Regex.findAll ⟨{ pattern := someBs }⟩ 100 #[97, 98, 98, 99, 98] = some (hits, r') ∧
      hits.map Match.span = [⟨1, 3⟩, ⟨4, 5⟩] ∧ (hits.map Match.span).Pairwise Span.Before := by
  have hp : Pattern.compile {} "b+".toList = .ok someBs := by decide +kernel
  have hspans : (Regex.findAll ⟨{ pattern := someBs }⟩ 100 #[97, 98, 98, 99, 98]).map
      (fun answer => answer.1.map Match.span) = some [⟨1, 3⟩, ⟨4, 5⟩] := by decide +kernel
  obtain ⟨⟨hits, r'⟩, h, hspans⟩ := Option.map_eq_some_iff.1 hspans
  obtain ⟨probes, -, hhits, -, -, hascend⟩ := findAll_ascending hp (by decide) rfl h
  refine ⟨hp, hits, r', h, hspans, hascend fun x hx hit hfound hempty => ?_⟩
  -- Every span that was found is one of the two, and these are not empty.
  have hmem : hit.span ∈ [(⟨1, 3⟩ : Span), ⟨4, 5⟩] := by
    rw [← hspans]
    exact List.mem_map_of_mem (hhits ▸ List.mem_filterMap.2 ⟨x, hx, hfound⟩)
  simp only [Match.isEmpty, decide_eq_true_eq] at hempty
  rcases List.mem_pair.1 hmem with hspan | hspan <;> simp [hspan] at hempty

/-- The pattern `$`. -/
def lineEnd : Pattern where
  options := {}
  names := .empty
  body := .leaf 0 (.assertion .lineEnd) .nil
  rootId := 1

/-- The end of `a` is found from its start, and once more from there. -/
theorem findAll_lineEnd : Pattern.compile {} "$".toList = .ok lineEnd ∧ lineEnd.body.unpinned = true ∧
    ∃ hits r', Regex.findAll ⟨{ pattern := lineEnd }⟩ 100 #[97] = some (hits, r') ∧
      hits.map Match.span = [⟨1, 1⟩, ⟨1, 1⟩] ∧ ¬ (hits.map Match.span).Nodup ∧
      ¬ (hits.map Match.span).Pairwise Span.Before := by
  have hspans : (Regex.findAll ⟨{ pattern := lineEnd }⟩ 100 #[97]).map
      (fun answer => answer.1.map Match.span) = some [⟨1, 1⟩, ⟨1, 1⟩] := by decide +kernel
  obtain ⟨⟨hits, r'⟩, h, hspans⟩ := Option.map_eq_some_iff.1 hspans
  refine ⟨by decide +kernel, by decide, hits, r', h, hspans, ?_⟩
  have hspans : hits.map Match.span = [⟨1, 1⟩, ⟨1, 1⟩] := hspans
  rw [hspans]
  exact ⟨by decide, by decide⟩

end SpanRegex
