import GrammarSearch.Pattern.Search

/-!
# Clues at bounded distances

A search leaves places out only where a pattern leads with dots, where something is looked for
behind a place, or where the best clue may be any distance away.  `Lead.Bounded` rules that out, and
it is kept where expressions follow each other.  Texts have it, and so have the anchors of a line.

## Main results

* `Lead.Bounded.append`: a sequence of two expressions keeps its clues at bounded distances.
* `Lead.Bounded.reach`: where all clues are at a bounded distance, all places are tried.
-/

namespace GrammarSearch.Pattern

/-- No mark holds at the start, and every clue is at a bounded distance. -/
structure Lead.Bounded (lead : Lead) : Prop where
  starts_eq : lead.starts = []
  extent : lead.extent.most.isSome
  edge : lead.edge.distance.most.isSome
  inner : lead.inner.distance.most.isSome
  ahead : lead.ahead.distance.most.isSome
  first : lead.first.distance.most.isSome

theorem Extent.isSome_most_add {first second : Extent} (hFirst : first.most.isSome)
    (hSecond : second.most.isSome) : (first.add second).most.isSome := by
  obtain ⟨a, hA⟩ := Option.isSome_iff_exists.1 hFirst
  obtain ⟨b, hB⟩ := Option.isSome_iff_exists.1 hSecond
  simp [Extent.add, hA, hB]

theorem Needle.isSome_most_better {needle other : Needle} (h : needle.distance.most.isSome)
    (hOther : other.distance.most.isSome) : (needle.better other).distance.most.isSome := by
  unfold Needle.better
  split
  · exact h
  · split
    · exact hOther
    · split
      · exact hOther
      · exact h

theorem Needle.isSome_most_ite {c : Prop} [Decidable c] {needle other : Needle}
    (h : needle.distance.most.isSome) (hOther : other.distance.most.isSome) :
    (if c then needle else other).distance.most.isSome := by
  split
  · exact h
  · exact hOther

theorem Needle.isSome_most_improved {c : Prop} [Decidable c] {needle other : Needle}
    (h : needle.distance.most.isSome) (hOther : other.distance.most.isSome) :
    (if c then needle.better other else needle).distance.most.isSome :=
  isSome_most_ite (isSome_most_better h hOther) h

theorem FirstBytes.isSome_most_better {first other : FirstBytes} (h : first.distance.most.isSome)
    (hOther : other.distance.most.isSome) : (first.better other).distance.most.isSome := by
  unfold FirstBytes.better
  split
  · exact h
  · split
    · exact hOther
    · split
      · exact hOther
      · exact h

namespace Lead

variable {lead other : Lead} {distance : Extent}

theorem bounded_unknown (h : distance.most.isSome) : (unknown distance).Bounded :=
  ⟨rfl, rfl, h, rfl, h, h⟩

theorem bounded_ofText (chars : List Char) (h : distance.most.isSome) :
    (ofText chars distance).Bounded :=
  ⟨rfl, rfl, h, rfl, h, h⟩

theorem Bounded.append (h : lead.Bounded) (hOther : other.Bounded) :
    (lead.append other).Bounded := by
  have hOpen (needle : Needle) (hNeedle : needle.distance.most.isSome) (ends : Bool) :
      (if ends = true then { needle with toEnd := false } else needle).distance.most.isSome :=
    Needle.isSome_most_ite hNeedle hNeedle
  refine ⟨?starts, Extent.isSome_most_add h.extent hOther.extent, ?edge, ?inner, ?ahead,
    FirstBytes.isSome_most_better h.first hOther.first⟩
  case starts => simp [Lead.append, h.starts_eq, hOther.starts_eq]
  case edge =>
    have hEdge := hOpen lead.edge h.edge
    apply Needle.isSome_most_improved
    · exact Needle.isSome_most_ite (hEdge _) (hEdge _)
    · split <;> exact h.ahead
  case inner =>
    have hInner := hOpen lead.inner h.inner
    apply Needle.isSome_most_improved
    · apply Needle.isSome_most_better
      · apply Needle.isSome_most_better
        · exact Needle.isSome_most_ite (hInner _) (hInner _)
        · exact Needle.isSome_most_ite rfl hOther.edge
      · exact hOther.inner
    · split <;> exact h.ahead
  case ahead =>
    apply Needle.isSome_most_ite
    · apply Needle.isSome_most_ite
      · split <;> exact h.ahead
      · exact h.ahead
    · exact Needle.isSome_most_ite hOther.ahead h.ahead

/-- Where all clues are at a bounded distance, all places are tried. -/
theorem Bounded.reach (h : lead.Bounded) : lead.reach = .all := by
  have hGuide : ∀ guide, lead.guide? = some guide → guide.distance.most.isSome := by
    intro guide hGuide
    unfold guide? at hGuide
    dsimp only at hGuide
    split at hGuide
    · obtain rfl := Option.some.inj hGuide
      exact Needle.isSome_most_better h.edge h.inner
    · split at hGuide
      · obtain rfl := Option.some.inj hGuide
        exact h.first
      · contradiction
  unfold Lead.reach
  cases hFound : lead.guide? with
  | none => simp [h.starts_eq]
  | some guide => simp [h.starts_eq, hGuide guide hFound]

end Lead

/-- A text, or a condition on the place that guides no search. -/
def Expr.IsFlat : Expr → Prop
  | text _ _ | anchor .lineStart | anchor .lineEnd => True
  | _ => False

theorem bounded_lead {expr : Expr} (hFlat : expr.IsFlat) (facts : GroupFacts) {distance : Extent}
    (h : distance.most.isSome) : (expr.lead facts distance).Bounded := by
  unfold Expr.IsFlat at hFlat
  split at hFlat
  · exact Lead.bounded_ofText _ h
  · exact Lead.bounded_unknown h
  · exact Lead.bounded_unknown h
  · contradiction

/-- A sequence of such expressions keeps its clues at bounded distances. -/
theorem bounded_leadOfAll {items : List Expr} (hFlat : ∀ expr ∈ items, expr.IsFlat)
    (facts : GroupFacts) {lead : Lead} (hLead : lead.Bounded) {distance : Extent}
    (h : distance.most.isSome) : (Expr.leadOfAll facts items lead distance).Bounded := by
  induction items generalizing lead distance with
  | nil => exact hLead
  | cons expr rest ih =>
    obtain ⟨hExpr, hRest⟩ := List.forall_mem_cons.1 hFlat
    have hNext := bounded_lead hExpr facts h
    exact ih hRest (hLead.append hNext) (Extent.isSome_most_add h hNext.extent)

end GrammarSearch.Pattern
