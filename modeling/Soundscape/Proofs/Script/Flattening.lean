import Soundscape.Proofs.Script.Written
import Soundscape.Script.Statement

/-!
# Groups taken apart

The statements of a script are flattened one after the other, in the order they are written in, and
each takes its own number of words from the random source (`Statement.ofItems_eq`,
`Site.flattens_flatten`).  `Site.Flattens` says what a statement takes over from its group, and
`Statement.Flattened` that all statements do so.
-/

namespace Soundscape

variable {α : Type}

/-! ## Statements in their groups -/

/-- A statement as written, with the defaults of its group. -/
structure Site (α : Type) where
  defaults : Properties α
  written : StatementDef α

def Item.sites : Item α → List (Site α)
  | .statement d => [⟨{}, d⟩]
  | .group g => g.children.map (Site.mk g.props)

variable [Scalar α]

/-- The number of words that a sample of a written quantity takes. -/
def Quantity.words : Quantity α → Nat
  | .range low high => if low < high ∧ Scalar.isFinite (high - low) then 1 else 0
  | _ => 0

/-- The number of words that a volume or a pitch of a statement takes: those of the group's plain
value, unless an interpolation of its own moves it. -/
def AxisDef.words : Option (AxisDef α) → Option (AxisDef α) → Nat
  | some (.animated _), _ => 0
  | _, some (.plain q) => q.words
  | _, _ => 0

theorem AxisDef.words_none (own : Option (AxisDef α)) : words own none = 0 := by
  match own with
  | none => rfl
  | some (.plain _) => rfl
  | some (.animated _) => rfl

/-- What a volume or a pitch comes to, given its own and its group's as written, where a draw is
made from the source. -/
inductive AxisDef.Combines (s : Source) :
    Option (AxisDef α) → Option (AxisDef α) → Quantity α → Option (Interpolation α) → Prop where
  | ownRun (spec : Interpolation α) (group : Option (AxisDef α)) :
    Combines s (some (.animated spec)) group .unset (some spec)
  | groupRun (own : Option (Quantity α)) (spec : Interpolation α) :
    Combines s (own.map .plain) (some (.animated spec)) (own.getD .unset) (some spec)
  | scaled (own group : Quantity α) :
    Combines s (some (.plain own)) (some (.plain group)) (own.scaledBy (group.sample s).1) none
  | replaced (group : Quantity α) :
    Combines s none (some (.plain group)) (.fixed (group.sample s).1) none
  | kept (own : Option (Quantity α)) :
    Combines s (own.map .plain) none (own.getD .unset) none

namespace Site

/-- The number of words that a statement takes. -/
def words (x : Site α) : Nat :=
  AxisDef.words x.written.props.volume x.defaults.volume +
    AxisDef.words x.written.props.pitch x.defaults.pitch

/-- What a statement becomes when its draws come from the source: what is written for it alone is
copied, every time is its own or else its group's, and volume and pitch are combined, the volume
first. -/
structure Flattens (x : Site α) (s : Source) (t : Statement α) : Prop where
  kind : t.kind = x.written.kind
  clip : t.clip = x.written.clip
  count : t.count = x.written.count
  movement : t.movement = x.written.props.movement.getD .still
  visuals : t.visuals = x.written.props.visuals
  line : t.line = x.written.line
  startsAt : t.startsAt = (x.written.props.startsAt.or x.defaults.startsAt).getD .unset
  duration : t.duration = (x.written.props.duration.or x.defaults.duration).getD .unset
  every : t.every = (x.written.props.every.or x.defaults.every).getD .unset
  fadeIn : t.fadeIn = (x.written.props.fadeIn.or x.defaults.fadeIn).getD .unset
  fadeOut : t.fadeOut = (x.written.props.fadeOut.or x.defaults.fadeOut).getD .unset
  overlap : t.overlap = (x.written.props.overlap.or x.defaults.overlap).getD false
  volume : AxisDef.Combines s x.written.props.volume x.defaults.volume t.volume
    t.volumeInterpolation
  pitch : AxisDef.Combines
    (s.skip (AxisDef.words x.written.props.volume x.defaults.volume))
    x.written.props.pitch x.defaults.pitch t.pitch t.pitchInterpolation

def flatten (x : Site α) : Draw (Statement α) := Statement.ofDef x.defaults x.written

end Site

/-! ## One statement after the other -/

namespace Draw

variable {A B : Type} {f : A → Draw B}

theorem mapM_cons (x : A) (xs : List A) (s : Source) :
    (x :: xs).mapM f s =
      ((f x s).1 :: (xs.mapM f (f x s).2).1, (xs.mapM f (f x s).2).2) := by
  rw [List.mapM_cons]
  rfl

theorem mapM_append (xs ys : List A) (s : Source) :
    (xs ++ ys).mapM f s =
      ((xs.mapM f s).1 ++ (ys.mapM f (xs.mapM f s).2).1, (ys.mapM f (xs.mapM f s).2).2) := by
  rw [List.mapM_append]
  rfl

theorem mapM_skip {words : A → Nat} {xs : List A}
    (hf : ∀ x ∈ xs, ∀ s, (f x s).2 = s.skip (words x)) (s : Source) :
    (xs.mapM f s).2 = s.skip (xs.map words).sum ∧
      (xs.mapM f s).1 = xs.mapIdx fun k x => (f x (s.skip ((xs.take k).map words).sum)).1 := by
  induction xs generalizing s with
  | nil => exact ⟨rfl, rfl⟩
  | cons x xs ih =>
    obtain ⟨h₁, h₂⟩ := ih (fun y hy => hf y (List.mem_cons_of_mem x hy)) (f x s).2
    rw [hf x List.mem_cons_self s] at h₁ h₂
    rw [mapM_cons, hf x List.mem_cons_self s, h₁, h₂, List.mapIdx_cons, List.map_cons,
      List.sum_cons, Source.skip_add]
    refine ⟨rfl, congrArg _ (congrArg (List.mapIdx · xs) (funext fun k => funext fun y => ?_))⟩
    rw [List.take_succ_cons, List.map_cons, List.sum_cons, Source.skip_add]

end Draw

namespace Statement

theorem ofItem_eq (i : Item α) : ofItem i = i.sites.mapM Site.flatten := by
  cases i with
  | statement d =>
    rw [Item.sites, List.mapM_cons]
    rfl
  | group g =>
    rw [Item.sites, List.mapM_map]
    rfl

/-- The statements of a script are flattened one after the other. -/
theorem ofItems_eq (items : List (Item α)) :
    ofItems items = (items.flatMap Item.sites).mapM Site.flatten := by
  funext s
  induction items generalizing s with
  | nil => rfl
  | cons i items ih =>
    have hcons : ofItems (i :: items) s =
        ((ofItem i s).1 ++ (ofItems items (ofItem i s).2).1,
          (ofItems items (ofItem i s).2).2) := by
      unfold ofItems
      rw [List.mapM_cons]
      rfl
    rw [hcons, ih, ofItem_eq, List.flatMap_cons, Draw.mapM_append]

end Statement

/-! ## Draws -/

section Draws

variable [Scalar.Ordered α]

/-- A range in order is drawn from just if its bounds differ and its width can be measured. -/
theorem Quantity.draws_iff {low high : α} (hle : low ≤ high) :
    (Quantity.range low high).draws ↔ low < high ∧ Scalar.isFinite (high - low) := by
  rw [Quantity.draws, Scalar.same]
  simp [Scalar.Ordered.lt_iff, hle]

theorem Quantity.Written.source_sample {q : Quantity α} (h : q.Written) (s : Source) :
    (q.sample s).2 = s.skip q.words := by
  rw [Quantity.sample_source]
  cases h with
  | fixed v => rfl
  | @range low high hle =>
    rw [Quantity.words]
    by_cases hd : low < high ∧ Scalar.isFinite (high - low)
    · rw [if_pos ((Quantity.draws_iff hle).mpr hd), if_pos hd]
      rfl
    · rw [if_neg (mt (Quantity.draws_iff hle).mp hd), if_neg hd]
      rfl

theorem AxisDef.combines_axis (own : Option (AxisDef α)) {group : Option (AxisDef α)}
    (hg : ∀ a ∈ group, a.Written) (s : Source) :
    Combines s own group (Statement.axis own group s).1.1 (Statement.axis own group s).1.2 ∧
      (Statement.axis own group s).2 = s.skip (words own group) := by
  match own, group with
  | some (.animated spec), group => exact ⟨.ownRun spec group, rfl⟩
  | some (.plain value), some (.animated spec) => exact ⟨.groupRun (some value) spec, rfl⟩
  | none, some (.animated spec) => exact ⟨.groupRun none spec, rfl⟩
  | some (.plain value), none => exact ⟨.kept (some value), rfl⟩
  | none, none => exact ⟨.kept none, rfl⟩
  | some (.plain value), some (.plain factor) =>
    have hw : factor.Written := hg _ rfl
    unfold Statement.axis
    dsimp only
    rw [if_pos hw.isSet]
    exact ⟨.scaled value factor, hw.source_sample s⟩
  | none, some (.plain factor) =>
    have hw : factor.Written := hg _ rfl
    unfold Statement.axis
    dsimp only
    rw [if_pos hw.isSet]
    exact ⟨.replaced factor, hw.source_sample s⟩

omit [Scalar.Ordered α] in
theorem Statement.inherited_eq {own : Option (Quantity α)} (h : ∀ q ∈ own, q.Written)
    (group : Option (Quantity α)) : inherited own group = (own.or group).getD .unset := by
  cases own with
  | none => rfl
  | some q => exact if_pos (h q rfl).isSet

namespace Site

variable {x : Site α}

/-- A site of which all is written flattens as it should, and takes as many words as it should. -/
theorem flattens_flatten (hd : x.defaults.Written) (hw : x.written.props.Written) (s : Source) :
    x.Flattens s (x.flatten s).1 ∧ (x.flatten s).2 = s.skip x.words := by
  obtain ⟨hv, hs⟩ := AxisDef.combines_axis x.written.props.volume hd.volume s
  obtain ⟨hp, hs'⟩ := AxisDef.combines_axis x.written.props.pitch hd.pitch
    (Statement.axis x.written.props.volume x.defaults.volume s).2
  refine ⟨?_, ?_⟩
  · exact
      { kind := rfl
        clip := rfl
        count := rfl
        movement := rfl
        visuals := rfl
        line := rfl
        startsAt := Statement.inherited_eq hw.startsAt _
        duration := Statement.inherited_eq hw.duration _
        every := Statement.inherited_eq hw.every _
        fadeIn := Statement.inherited_eq hw.fadeIn _
        fadeOut := Statement.inherited_eq hw.fadeOut _
        overlap := rfl
        volume := hv
        pitch := hs ▸ hp }
  · show (Statement.axis x.written.props.pitch x.defaults.pitch
      (Statement.axis x.written.props.volume x.defaults.volume s).2).2 = _
    rw [hs', hs, ← Source.skip_add]
    rfl

end Site

end Draws

/-- What is kept by all properties of a script holds of a statement in it and of its group. -/
theorem Site.of_kept {P : Properties α → Prop} (hP : Properties.Kept P) (strict : Bool)
    (source : String) {x : Site α} (hx : x ∈ (readScript strict source).items.flatMap Item.sites) :
    P x.defaults ∧ P x.written.props := by
  obtain ⟨i, hi, hx⟩ := List.mem_flatMap.mp hx
  have hw := hP.readScript strict source i hi
  cases i with
  | statement d =>
    obtain rfl := List.mem_singleton.mp hx
    exact ⟨hP.empty, hw⟩
  | group g =>
    obtain ⟨d, hd, rfl⟩ := List.mem_map.mp hx
    exact ⟨hw.1, hw.2 d hd⟩

/-- What flattening comes to: there is one statement for each that is written, in the same order.
Each takes over from its group what it should; its draws come after those of the statements before
it, and outside of groups it makes none. -/
structure Statement.Flattened (items : List (Item α)) (s : Source)
    (x : List (Statement α) × Source) : Prop where
  length : x.1.length = (items.flatMap Item.sites).length
  statement (k : Nat) (hk : k < (items.flatMap Item.sites).length) :
    ∃ t, x.1[k]? = some t ∧ (items.flatMap Item.sites)[k].Flattens
      (s.skip (((items.flatMap Item.sites).take k).map Site.words).sum) t
  source : x.2 = s.skip ((items.flatMap Item.sites).map Site.words).sum
  outside (d : StatementDef α) : Item.statement d ∈ items → (Site.mk {} d).words = 0

theorem Statement.flattened_ofItems [Scalar.Ordered α] (strict : Bool) (source : String)
    (s : Source) :
    let items := (readScript strict source : Findings α).items
    Flattened items s (ofItems items s) := by
  intro items
  have hwritten (y : Site α) (hy : y ∈ items.flatMap Item.sites) :=
    Site.of_kept Properties.kept_written strict source hy
  have hskip (y : Site α) (hy : y ∈ items.flatMap Item.sites) (s : Source) :
      (y.flatten s).2 = s.skip y.words :=
    (Site.flattens_flatten (hwritten y hy).1 (hwritten y hy).2 s).2
  obtain ⟨hsource, hlist⟩ := Draw.mapM_skip hskip s
  rw [ofItems_eq]
  refine ⟨?_, fun k hk => ?_, hsource, fun d _ => ?_⟩
  · rw [hlist, List.length_mapIdx]
  · obtain ⟨hd, hw⟩ := hwritten _ (List.getElem_mem hk)
    refine ⟨_, ?_, (Site.flattens_flatten hd hw _).1⟩
    rw [hlist, List.getElem?_mapIdx, List.getElem?_eq_getElem hk]
    rfl
  · unfold Site.words
    rw [AxisDef.words_none, AxisDef.words_none]

end Soundscape
