import SpanRegex.Highlight

/-! # Painted lines

A line is painted slice by slice, plain or matched, and then ended.

* `Painter`, `Painter.line?`: who paints a line, and the walk over its spans with every offset checked.
* `Highlight.cuts`: the slices of a line by their offsets; `Highlight.edges`: the offsets of the spans, clamped.
* `Highlight.Tiles`: slices that lie side by side and fill a line; `Highlight.tiles_cuts`.
* `Text.decode_append`: text may be decoded in parts that split no surrogate pair.
* `line_tiles`: what is painted of a line.
-/

namespace SpanRegex
set_option autoImplicit false

/-! ## Painters -/

/-- Who paints lines; `σ` is what has been painted. -/
structure Painter (σ : Type) where
  plain : String → σ → σ
  matched : String → σ → σ
  endLine : σ → σ

def Marking.painter (m : Marking) : Painter String where
  plain t s := s ++ t
  matched t s := s ++ (m.before ++ t ++ m.after)
  endLine s := s ++ "\n"

/-- The nearest offset from `low` to `high`, which may not cross. -/
def clamp? (n low high : Nat) : Option Nat := if low ≤ high then some (max low (min n high)) else none

/-- The units between two offsets, which may not cross or lie beyond the end. -/
def Text.slice? (t : Text) (start stop : Nat) : Option Text :=
  if start ≤ stop ∧ stop ≤ t.size then some (t.slice start stop) else none

/-- Paints the units between two offsets unless there are none. -/
def paintBetween? {σ : Type} (paint : String → σ → σ) (line : Text) (start stop : Nat) (s : σ) : Option σ :=
  if start < stop then (line.slice? start stop).map fun t => paint t.toString s else some s

namespace Painter

variable {σ : Type} (p : Painter σ) (line : Text)

/-- Paints the line from `pos` on. -/
def from? (pos : Nat) (s : σ) : List Span → Option σ
  | [] => do
    let s ← paintBetween? p.plain line pos line.size s
    some (p.endLine s)
  | span :: spans => do
    let start ← clamp? span.start pos line.size
    let stop ← clamp? span.stop start line.size
    let s ← paintBetween? p.plain line pos start s
    let s ← paintBetween? p.matched line start stop s
    from? stop s spans

/-- Paints the line, unless an offset is used that it does not have. -/
def line? (spans : List Span) (s : σ) : Option σ := p.from? line 0 s spans

end Painter

/-! ## Slices by their offsets -/

/-- The span clamped between two offsets. -/
def Span.clamped (s : Span) (pos size : Nat) : Span :=
  ⟨min (max s.start pos) size, min (max s.stop (min (max s.start pos) size)) size⟩

namespace Highlight

/-- The offsets of a piece of a line. -/
structure Cut where
  matched : Bool
  span : Span
  deriving DecidableEq, Repr

def Cut.piece (line : Text) (c : Cut) : Piece :=
  if c.matched then .matched (line.slice c.span.start c.span.stop) else .plain (line.slice c.span.start c.span.stop)

/-- The cut between two offsets unless it is empty. -/
def cutBetween (matched : Bool) (start stop : Nat) : List Cut :=
  if start < stop then [⟨matched, ⟨start, stop⟩⟩] else []

/-- The cuts of a line of `size` units from `pos` on. -/
def cutsFrom (size pos : Nat) : List Span → List Cut
  | [] => cutBetween false pos size
  | s :: spans =>
    cutBetween false pos (s.clamped pos size).start ++
      cutBetween true (s.clamped pos size).start (s.clamped pos size).stop ++
      cutsFrom size (s.clamped pos size).stop spans

def cuts (size : Nat) (spans : List Span) : List Cut := cutsFrom size 0 spans

/-- Where the spans start and stop, clamped behind `pos`. -/
def edgesFrom (size pos : Nat) : List Span → List Nat
  | [] => []
  | s :: spans =>
    (s.clamped pos size).start :: (s.clamped pos size).stop :: edgesFrom size (s.clamped pos size).stop spans

def edges (size : Nat) (spans : List Span) : List Nat := edgesFrom size 0 spans

/-- The cuts lie side by side from `pos` to `size`, and none is empty. -/
def Tiles (size : Nat) : Nat → List Cut → Prop
  | pos, [] => pos = size
  | pos, c :: cuts => c.span.start = pos ∧ c.span.start < c.span.stop ∧ Tiles size c.span.stop cuts

section

variable {line : Text} {size pos : Nat}

theorem clamped_bounds (s : Span) (h : pos ≤ size) :
    pos ≤ (s.clamped pos size).start ∧ (s.clamped pos size).start ≤ (s.clamped pos size).stop ∧
      (s.clamped pos size).stop ≤ size := by
  simp only [Span.clamped]
  omega

theorem pieceBetween_eq (matched : Bool) (line : Text) (start stop : Nat) :
    pieceBetween (if matched then .matched else .plain) line start stop =
      (cutBetween matched start stop).map (Cut.piece line) := by
  unfold pieceBetween cutBetween
  split
  · cases matched <;> rfl
  · rfl

theorem piecesFrom_eq (line : Text) (spans : List Span) : ∀ pos : Nat,
    piecesFrom line pos spans = (cutsFrom line.size pos spans).map (Cut.piece line) := by
  induction spans with
  | nil => exact fun pos => pieceBetween_eq false line pos line.size
  | cons s spans ih =>
    intro pos
    simp only [cutsFrom, List.map_append, ← ih, ← pieceBetween_eq]
    rfl

theorem tiles_between {n : Nat} {cuts : List Cut} (matched : Bool) (hle : pos ≤ n) (h : Tiles size n cuts) :
    Tiles size pos (cutBetween matched pos n ++ cuts) := by
  unfold cutBetween
  split
  · rename_i hlt
    exact ⟨rfl, hlt, h⟩
  · obtain rfl : pos = n := by omega
    exact h

theorem tiles_cutsFrom (spans : List Span) : ∀ {pos : Nat}, pos ≤ size → Tiles size pos (cutsFrom size pos spans) := by
  induction spans with
  | nil =>
    intro pos hpos
    have h : Tiles size pos (cutBetween false pos size ++ []) := tiles_between false hpos rfl
    rwa [List.append_nil] at h
  | cons s spans ih =>
    intro pos hpos
    obtain ⟨hstart, hstop, hsize⟩ := clamped_bounds s hpos
    rw [cutsFrom, List.append_assoc]
    exact tiles_between false hstart (tiles_between true hstop (ih hsize))

/-! ## The walk -/

end

end Highlight

open Highlight

variable {σ : Type}

def Painter.cut (p : Painter σ) (line : Text) (s : σ) (c : Cut) : σ :=
  (if c.matched then p.matched else p.plain) (line.slice c.span.start c.span.stop).toString s

theorem paintBetween_eq (p : Painter σ) {line : Text} (matched : Bool) {start stop : Nat}
    (hstop : stop ≤ line.size) (s : σ) :
    paintBetween? (if matched then p.matched else p.plain) line start stop s =
      some ((cutBetween matched start stop).foldl (p.cut line) s) := by
  unfold paintBetween? cutBetween
  by_cases hlt : start < stop
  · have hslice : line.slice? start stop = some (line.slice start stop) := if_pos ⟨Nat.le_of_lt hlt, hstop⟩
    rw [if_pos hlt, if_pos hlt, hslice]
    cases matched <;> rfl
  · rw [if_neg hlt, if_neg hlt]
    rfl

theorem clamp_eq {n low high : Nat} (h : low ≤ high) : clamp? n low high = some (min (max n low) high) := by
  rw [clamp?, if_pos h]
  congr 1
  omega

/-- The walk uses no offset that the line does not have. -/
theorem Painter.from_eq (p : Painter σ) (line : Text) (spans : List Span) : ∀ {pos : Nat} (s : σ), pos ≤ line.size →
    p.from? line pos s spans = some (p.endLine ((cutsFrom line.size pos spans).foldl (p.cut line) s)) := by
  induction spans with
  | nil =>
    intro pos s _
    simp only [from?, bind, Option.bind, cutsFrom]
    rw [show paintBetween? p.plain line pos line.size s = _ from paintBetween_eq p false (Nat.le_refl _) s]
  | cons span spans ih =>
    intro pos s hpos
    obtain ⟨hstart, hstop, hsize⟩ := clamped_bounds span hpos
    have hclamp : clamp? span.start pos line.size = some (span.clamped pos line.size).start := clamp_eq hpos
    have hclamp' : clamp? span.stop (span.clamped pos line.size).start line.size =
        some (span.clamped pos line.size).stop := clamp_eq (Nat.le_trans hstop hsize)
    have hplain : paintBetween? p.plain line pos (span.clamped pos line.size).start s = _ :=
      paintBetween_eq p false (Nat.le_trans hstop hsize) s
    have hmatched : ∀ s, paintBetween? p.matched line (span.clamped pos line.size).start
        (span.clamped pos line.size).stop s = _ := paintBetween_eq p true hsize
    simp only [from?, bind, Option.bind, hclamp, hclamp', hplain, hmatched, ih _ hsize, cutsFrom, List.foldl_append]

theorem Marking.painter_foldl (m : Marking) (line : Text) (cuts : List Cut) : ∀ s : String,
    cuts.foldl (m.painter.cut line) s = s ++ String.join ((cuts.map (Cut.piece line)).map m.piece) := by
  induction cuts with
  | nil => exact fun s => (String.append_empty).symm
  | cons c cuts ih =>
    intro s
    obtain ⟨matched, span⟩ := c
    rw [List.foldl_cons, ih, List.map_cons, List.map_cons, String.join_cons, ← String.append_assoc]
    cases matched <;> rfl

/-! ## Decoding in parts -/

/-- The offset lies between the two halves of a surrogate pair. -/
def Text.splitsPair (t : Text) (n : Nat) : Bool :=
  n != 0 && t[n - 1]?.any CodeUnit.isHighSurrogate && t[n]?.any CodeUnit.isLowSurrogate

/-- Text may be decoded in parts that split no surrogate pair. -/
theorem Text.decode_append (xs ys : List CodeUnit) (h : ∀ u v, xs.getLast? = some u → ys.head? = some v →
      ¬ (u.isHighSurrogate = true ∧ v.isLowSurrogate = true)) :
    decode (xs ++ ys) = decode xs ++ decode ys := by
  induction xs using decode.induct with
  | case1 => rfl
  | case2 u =>
    cases ys with
    | nil => rfl
    | cons v ys =>
      have hsplit := h u v rfl rfl
      simp only [List.cons_append, List.nil_append, decode]
      rw [if_neg (by simpa using hsplit)]
  | case3 u v rest hpair ih =>
    simp only [List.cons_append, decode, hpair, if_true, List.cons.injEq, true_and]
    refine ih fun u' v' hu' => h u' v' ?_
    cases rest with
    | nil => cases hu'
    | cons w rest => rwa [List.getLast?_cons_cons, List.getLast?_cons_cons]
  | case4 u v rest hpair ih =>
    simp only [List.cons_append, decode, if_neg hpair, List.cons.injEq, true_and]
    exact ih fun u' v' hu' => h u' v' (by rwa [List.getLast?_cons_cons])

/-- The characters of a text are those of the cuts that tile it, where these split no surrogate pair. -/
theorem decode_tiles (line : Text) (cuts : List Cut) : ∀ {pos : Nat}, Tiles line.size pos cuts →
    (∀ c ∈ cuts, c.span.stop = line.size ∨ line.splitsPair c.span.stop = false) →
      Text.decode (line.toList.drop pos) =
        cuts.flatMap fun c => Text.decode (line.slice c.span.start c.span.stop).toList := by
  induction cuts with
  | nil =>
    rintro pos rfl _
    rw [List.drop_of_length_le (Nat.le_of_eq Array.length_toList)]
    rfl
  | cons c cuts ih =>
    rintro pos ⟨rfl, hlt, htiles⟩ hwhole
    obtain ⟨hc, hcuts⟩ := List.forall_mem_cons.1 hwhole
    have hslice : (line.slice c.span.start c.span.stop).toList =
        (line.toList.drop c.span.start).take (c.span.stop - c.span.start) := Array.toList_extract
    have hrest : line.toList.drop c.span.stop =
        (line.toList.drop c.span.start).drop (c.span.stop - c.span.start) := by
      rw [List.drop_drop, Nat.add_sub_cancel' (Nat.le_of_lt hlt)]
    rw [List.flatMap_cons, ← ih htiles hcuts, hslice, hrest, ← Text.decode_append, List.take_append_drop]
    -- The last unit of the cut and the first one after it.
    intro u v hu hv ⟨hhigh, hlow⟩
    rw [← hrest, List.head?_drop] at hv
    obtain ⟨hsize, -⟩ := List.getElem?_eq_some_iff.1 hv
    obtain ⟨k, hk⟩ : ∃ k, c.span.stop = k + 1 := ⟨c.span.stop - 1, by omega⟩
    have hlength : ((line.toList.drop c.span.start).take (c.span.stop - c.span.start)).length =
        k + 1 - c.span.start := by
      rw [List.length_take, List.length_drop]
      omega
    have hlast : c.span.start + (k + 1 - c.span.start - 1) = k := by omega
    rw [List.getLast?_eq_getElem?, hlength, List.getElem?_take_of_lt (by omega), List.getElem?_drop, hlast] at hu
    rw [hk] at hv
    rcases hc with hend | hsplit
    · rw [Array.length_toList] at hsize
      omega
    · rw [Array.getElem?_toList] at hu hv
      simp [Text.splitsPair, hk, hu, hv, hhigh, hlow] at hsplit

theorem stop_mem_edges (size : Nat) (spans : List Span) : ∀ (pos : Nat), ∀ c ∈ cutsFrom size pos spans,
    c.span.stop = size ∨ c.span.stop ∈ edgesFrom size pos spans := by
  have hbetween : ∀ {matched start stop} {c : Cut}, c ∈ cutBetween matched start stop → c.span.stop = stop := by
    intro matched start stop c hc
    unfold cutBetween at hc
    split at hc
    · rw [List.mem_singleton.1 hc]
    · cases hc
  induction spans with
  | nil => exact fun pos c hc => .inl (hbetween hc)
  | cons s spans ih =>
    intro pos c hc
    rcases List.mem_append.1 hc with hc | hc
    · rcases List.mem_append.1 hc with hc | hc
      · exact .inr (hbetween hc ▸ List.mem_cons_self)
      · exact .inr (hbetween hc ▸ List.mem_cons_of_mem _ List.mem_cons_self)
    · exact (ih _ c hc).imp id fun h => List.mem_cons_of_mem _ (List.mem_cons_of_mem _ h)

/-! ## Matched pieces -/

/-- Spans in order that do not overlap are matched as they are, apart from the empty ones. -/
theorem matched_cutsFrom (size : Nat) (spans : List Span) : ∀ {pos : Nat},
    spans.Pairwise (fun s t => s.stop ≤ t.start) → (∀ s ∈ spans, pos ≤ s.start ∧ s.start ≤ s.stop ∧ s.stop ≤ size) →
      ((cutsFrom size pos spans).filter Cut.matched).map Cut.span = spans.filter fun s => s.start < s.stop := by
  have hplain : ∀ {start stop}, (cutBetween false start stop).filter Cut.matched = [] := by
    intro start stop
    unfold cutBetween
    split <;> rfl
  induction spans with
  | nil => exact fun _ _ => congrArg _ hplain
  | cons s spans ih =>
    intro pos hordered hrange
    obtain ⟨hs, hspans⟩ := List.pairwise_cons.1 hordered
    obtain ⟨⟨hpos, hle, hsize⟩, hrange⟩ := List.forall_mem_cons.1 hrange
    have hclamped : s.clamped pos size = s := by
      obtain ⟨start, stop⟩ := s
      simp only [Span.clamped, Span.mk.injEq]
      simp only at hpos hle hsize
      omega
    have hmatched : ((cutBetween true s.start s.stop).filter Cut.matched).map Cut.span =
        [s].filter fun s => s.start < s.stop := by
      by_cases hlt : s.start < s.stop <;> simp [cutBetween, hlt]
    rw [cutsFrom, hclamped, List.filter_append, List.filter_append, hplain, List.nil_append, List.map_append,
      hmatched, ih hspans fun t ht => ⟨hs t ht, (hrange t ht).2⟩, ← List.filter_append, List.singleton_append]

/-- A line is painted without an offset that it does not have, in slices that are not empty and lie side by side
from its start to its end, and then ended. The slices have the characters of the line unless a surrogate pair is
split. Spans in order that do not overlap are matched as they are. -/
theorem line_tiles (line : Text) (spans : List Span) :
    (∀ {σ : Type} (p : Painter σ) (s : σ), p.line? line spans s =
      some (p.endLine ((cuts line.size spans).foldl (p.cut line) s))) ∧
    (∀ m : Marking, m.painter.line? line spans "" = some (m.line line spans)) ∧
    pieces line spans = (cuts line.size spans).map (Cut.piece line) ∧
    Tiles line.size 0 (cuts line.size spans) ∧
    ((∀ n ∈ edges line.size spans, line.splitsPair n = false) →
      String.join ((pieces line spans).map fun piece => piece.text.toString) = line.toString) ∧
    (spans.Pairwise (fun s t => s.stop ≤ t.start) → (∀ s ∈ spans, s.start ≤ s.stop ∧ s.stop ≤ line.size) →
      ((cuts line.size spans).filter Cut.matched).map Cut.span = spans.filter fun s => s.start < s.stop) := by
  have hwalk : ∀ {σ : Type} (p : Painter σ) (s : σ), p.line? line spans s =
      some (p.endLine ((cuts line.size spans).foldl (p.cut line) s)) := fun p s =>
    p.from_eq line spans s (Nat.zero_le _)
  have hpieces : pieces line spans = (cuts line.size spans).map (Cut.piece line) := piecesFrom_eq line spans 0
  have htiles : Tiles line.size 0 (cuts line.size spans) := tiles_cutsFrom spans (Nat.zero_le _)
  refine ⟨hwalk, fun m => ?_, hpieces, htiles, fun hwhole => ?_, fun hordered hrange => ?_⟩
  · rw [hwalk, m.painter_foldl, String.empty_append, ← hpieces]
    rfl
  · have hdecode := decode_tiles line _ htiles fun c hc =>
      (stop_mem_edges line.size spans 0 c hc).imp id fun h => hwhole _ h
    have htext : ∀ c : Cut, (Cut.piece line c).text.toString =
        String.ofList (Text.decode (line.slice c.span.start c.span.stop).toList) := by
      rintro ⟨matched, span⟩
      cases matched <;> rfl
    rw [List.drop_zero] at hdecode
    rw [← String.toList_inj, String.toList_join, hpieces, List.map_map, List.flatMap_map, Text.toString,
      String.toList_ofList, hdecode]
    simp only [Function.comp_apply, htext, String.toList_ofList]
  · exact matched_cutsFrom line.size spans hordered fun s hs => ⟨Nat.zero_le _, hrange s hs⟩

/-- A text that begins and ends with a surrogate pair. -/
def pairsAround : Text := #[0xD83D, 0xDE00, 97, 0xD83D, 0xDE00]

theorem line_tiles_pairsAround :
    (∀ n ∈ edges pairsAround.size [⟨0, 2⟩, ⟨2, 2⟩, ⟨3, 9⟩], pairsAround.splitsPair n = false) ∧
      String.join ((pieces pairsAround [⟨0, 2⟩, ⟨2, 2⟩, ⟨3, 9⟩]).map fun piece => piece.text.toString) =
        pairsAround.toString ∧
      [(⟨0, 2⟩ : Span), ⟨2, 2⟩, ⟨3, 5⟩].Pairwise (fun s t => s.stop ≤ t.start) ∧
      ((cuts pairsAround.size [⟨0, 2⟩, ⟨2, 2⟩, ⟨3, 5⟩]).filter Cut.matched).map Cut.span = [⟨0, 2⟩, ⟨3, 5⟩] := by
  have hwhole : ∀ n ∈ edges pairsAround.size [⟨0, 2⟩, ⟨2, 2⟩, ⟨3, 9⟩], pairsAround.splitsPair n = false := by decide
  have hordered : [(⟨0, 2⟩ : Span), ⟨2, 2⟩, ⟨3, 5⟩].Pairwise fun s t => s.stop ≤ t.start := by decide
  obtain ⟨-, -, -, -, htext, -⟩ := line_tiles pairsAround [⟨0, 2⟩, ⟨2, 2⟩, ⟨3, 9⟩]
  obtain ⟨-, -, -, -, -, hmatched⟩ := line_tiles pairsAround [⟨0, 2⟩, ⟨2, 2⟩, ⟨3, 5⟩]
  exact ⟨hwhole, htext hwhole, hordered, hmatched hordered (by decide)⟩

end SpanRegex
