import Mathlib.Data.List.TakeWhile
import Soundscape.Proofs.Number.Comparison
import Soundscape.Script.Document

/-!
# What is written in a script

A property of properties that the empty ones have, that a header's `every` has and that no property
line breaks, holds of all statements and groups of a script (`Properties.Kept.readScript`).  So
every time, volume and pitch in a script is a number or a range in order
(`Properties.kept_written`).
-/

namespace Soundscape

/-! ## Properties through the reading of a script -/

section AllProps

variable {α : Type} (P : Properties α → Prop)

/-- All properties of an item satisfy a predicate. -/
def Item.AllProps : Item α → Prop
  | .statement d => P d.props
  | .group g => P g.props ∧ ∀ d ∈ g.children, P d.props

def Body.AllProps (b : Body α) : Prop := ∀ d ∈ b.finished, P d.props

/-- All properties of what is open satisfy a predicate. -/
def Context.AllProps : Context α → Prop
  | .top body => body.AllProps P
  | .inGroup g body => (Item.group g.group).AllProps P ∧ body.AllProps P
  | .refusedGroup _ => True

def Findings.AllProps (f : Findings α) : Prop := ∀ i ∈ f.items, i.AllProps P

variable {P}

theorem Body.AllProps.of_finished {b : Body α} (h : b.finished = Option.none) : b.AllProps P :=
  fun d hd => by
    rw [h] at hd
    cases hd

theorem Findings.AllProps.only (ds : List (Diagnostic α)) : (Findings.only ds).AllProps P :=
  fun _ hi => absurd hi List.not_mem_nil

theorem Findings.AllProps.append {f g : Findings α} (hf : f.AllProps P) (hg : g.AllProps P) :
    (f ++ g).AllProps P := fun i hi => (List.mem_append.mp hi).elim (hf i) (hg i)

theorem Findings.AllProps.finished {b : Body α} (hb : b.AllProps P) :
    Findings.AllProps P ⟨b.finished.toList.map Item.statement, []⟩ := by
  intro i hi
  obtain ⟨d, hd, rfl⟩ := List.mem_map.mp hi
  exact hb d (Option.mem_toList.mp hd)

theorem OpenGroup.allProps_adopt {g : OpenGroup α} {b : Body α}
    (hg : (Item.group g.group).AllProps P) (hb : b.AllProps P) :
    (Item.group (g.adopt b.finished).group).AllProps P := by
  refine ⟨hg.1, fun d hd => ?_⟩
  obtain hd | hd := List.mem_append.mp hd
  · exact hg.2 d hd
  · exact hb d (Option.mem_toList.mp hd)

theorem OpenGroup.allProps_close {g : OpenGroup α} (hg : (Item.group g.group).AllProps P) :
    g.close.AllProps P := by
  intro i hi
  obtain rfl : i = .group g.group := List.mem_singleton.mp hi
  exact hg

theorem Context.allProps_close {c : Context α} (hc : c.AllProps P) : c.close.AllProps P := by
  cases c with
  | top b => exact .finished hc
  | inGroup g b => exact OpenGroup.allProps_close (OpenGroup.allProps_adopt hc.1 hc.2)
  | refusedGroup indent => exact .only []

end AllProps

variable {α : Type} [Scalar α]

/-- A predicate that holds of properties from the start and after every line. -/
structure Properties.Kept (P : Properties α → Prop) : Prop where
  empty : P {}
  header {l : Line} {h : Reader.StatementHeader α} :
    l.readHeader (Reader.statementHeader (α := α)) = .ok h → P { every := h.every }
  setting {strict : Bool} {owner : Owner} {l : Line} {s : Setting α} {p : Properties α} :
    Setting.read strict owner l = .ok s → P p → P (p.apply s)

namespace Properties.Kept

variable {P : Properties α → Prop} {strict : Bool}

/-- A context and what was found on the way to it satisfy the predicate. -/
def Holds (P : Properties α → Prop) (x : Context α × Findings α) : Prop :=
  x.1.AllProps P ∧ x.2.AllProps P

theorem lineSetting (hP : Kept P) (owner : Owner) (l : Line) {p : Properties α} (hp : P p) :
    P (l.setting strict owner p).1 := by
  unfold Line.setting
  cases hs : Setting.read (α := α) strict owner l with
  | error e => exact hp
  | ok s => exact hP.setting hs hp

theorem ofHeader (hP : Kept P) (l : Line) : Body.AllProps P (Body.ofHeader (α := α) l).1 := by
  unfold Body.ofHeader
  cases hh : l.readHeader (Reader.statementHeader (α := α)) with
  | error e => exact .of_finished rfl
  | ok h =>
    rintro d ⟨⟩
    exact hP.header hh

theorem absorb (hP : Kept P) {l : Line} {b b' : Body α} {ds : List (Diagnostic α)}
    (hb : b.AllProps P) (h : b.absorb strict l = some (b', ds)) : b'.AllProps P := by
  unfold Body.absorb at h
  split at h
  · cases h
  · next indent s =>
    split at h
    · split at h
      · cases h
        rintro d ⟨⟩
        exact hP.lineSetting .statement l (hb s rfl)
      · cases h
        exact hb
      · cases h
    · cases h
  · split at h
    · cases h
      exact hb
    · cases h
  · split at h
    · cases h
      exact hb
    · cases h

theorem outside (hP : Kept P) (l : Line) : Holds P (Context.outside l) := by
  unfold Context.outside
  cases l.kind with
  | groupStart =>
    dsimp only
    cases l.readHeader (Reader.groupHeader (α := α)) with
    | error e => exact ⟨trivial, .only _⟩
    | ok name =>
      exact ⟨⟨⟨hP.empty, fun _ hd => absurd hd List.not_mem_nil⟩, .of_finished rfl⟩, .only []⟩
  | statement => exact ⟨hP.ofHeader l, .only _⟩
  | _ => exact ⟨Body.AllProps.of_finished rfl, .only _⟩

theorem inside (hP : Kept P) {g : OpenGroup α} (hg : (Item.group g.group).AllProps P) (l : Line) :
    Holds P (Context.inside strict g l) := by
  unfold Context.inside
  split
  · exact ⟨Body.AllProps.of_finished rfl, OpenGroup.allProps_close hg⟩
  · split
    · obtain ⟨hc, hf⟩ := hP.outside l
      exact ⟨hc, (OpenGroup.allProps_close hg).append hf⟩
    · split
      · exact ⟨⟨hg, hP.ofHeader l⟩, .only _⟩
      · exact ⟨⟨⟨hP.lineSetting .group l hg.1, hg.2⟩, .of_finished rfl⟩, .only _⟩
      · exact ⟨⟨hg, .of_finished rfl⟩, .only _⟩
      · exact ⟨⟨hg, .of_finished rfl⟩, .only _⟩

theorem step (hP : Kept P) (strict : Bool) {c : Context α} (hc : c.AllProps P) (l : Line) :
    Holds P (Context.step strict c l) := by
  cases c with
  | top b =>
    unfold Context.step
    dsimp only
    cases hb : b.absorb strict l with
    | some x => exact ⟨hP.absorb hc hb, .only _⟩
    | none =>
      obtain ⟨hc', hf⟩ := hP.outside l
      exact ⟨hc', (Findings.AllProps.finished hc).append hf⟩
  | inGroup g b =>
    unfold Context.step
    dsimp only
    cases hb : b.absorb strict l with
    | some x => exact ⟨⟨hc.1, hP.absorb hc.2 hb⟩, .only _⟩
    | none => exact hP.inside (OpenGroup.allProps_adopt hc.1 hc.2) l
  | refusedGroup indent =>
    unfold Context.step
    dsimp only
    split
    · exact ⟨trivial, .only []⟩
    · split
      · exact ⟨Body.AllProps.of_finished rfl, .only []⟩
      · exact hP.outside l

theorem run (hP : Kept P) (strict : Bool) {c : Context α} (hc : c.AllProps P) (ls : List Line) :
    Holds P (Context.run strict c ls) := by
  induction ls generalizing c with
  | nil => exact ⟨hc, .only []⟩
  | cons l ls ih =>
    obtain ⟨hc', hf⟩ := hP.step strict hc l
    obtain ⟨hr, hg⟩ := ih hc'
    exact ⟨hr, hf.append hg⟩

theorem readScript (hP : Kept P) (strict : Bool) (source : String) :
    (readScript strict source).AllProps P := by
  have hc : (Context.top Body.none : Context α).AllProps P := Body.AllProps.of_finished rfl
  obtain ⟨hr, hf⟩ := hP.run strict hc (Line.ofSource source.toList)
  exact hf.append (Context.allProps_close hr)

end Properties.Kept

/-! ## Written quantities -/

/-- A quantity as it can be written: a number, or a range in order. -/
inductive Quantity.Written : Quantity α → Prop where
  | fixed (v : α) : Written (.fixed v)
  | range {low high : α} : low ≤ high → Written (.range low high)

/-- A volume or pitch of which a plain value is written. -/
def AxisDef.Written : AxisDef α → Prop
  | .plain q => q.Written
  | .animated _ => True

/-- Properties that are written where they are set. -/
structure Properties.Written (p : Properties α) : Prop where
  volume : ∀ a ∈ p.volume, a.Written
  pitch : ∀ a ∈ p.pitch, a.Written
  startsAt : ∀ q ∈ p.startsAt, q.Written
  duration : ∀ q ∈ p.duration, q.Written
  fadeIn : ∀ q ∈ p.fadeIn, q.Written
  fadeOut : ∀ q ∈ p.fadeOut, q.Written
  every : ∀ q ∈ p.every, q.Written

theorem Properties.written_of_every {every : Option (Quantity α)} (h : ∀ q ∈ every, q.Written) :
    ({ every } : Properties α).Written where
  volume a ha := absurd ha (Option.not_mem_none a)
  pitch a ha := absurd ha (Option.not_mem_none a)
  startsAt q hq := absurd hq (Option.not_mem_none q)
  duration q hq := absurd hq (Option.not_mem_none q)
  fadeIn q hq := absurd hq (Option.not_mem_none q)
  fadeOut q hq := absurd hq (Option.not_mem_none q)
  every := h

def Setting.Written : Setting α → Prop
  | .volume a | .pitch a => a.Written
  | .startsAt q | .duration q | .fadeIn q | .fadeOut q | .every q => q.Written
  | _ => True

theorem Quantity.Written.isSet {q : Quantity α} (h : q.Written) : q.isSet := by
  cases h <;> rfl

namespace Text

theorem trim_eq_nil_iff (cs : List Char) : trim cs = [] ↔ ∀ c ∈ cs, isBlank c := by
  unfold trim trimEnd dropEnding trimStart
  rw [List.reverse_eq_nil_iff, List.dropWhile_eq_nil_iff]
  refine ⟨fun h => ?_, fun h c hc => ?_⟩
  · by_contra hn
    have hne : cs.dropWhile isBlank ≠ [] := fun hd => hn (List.dropWhile_eq_nil_iff.mp hd)
    have hhead := List.head_dropWhile_not isBlank hne
    rw [h _ (List.mem_reverse.mpr (List.head_mem hne))] at hhead
    cases hhead
  · exact h c ((List.dropWhile_suffix _).subset (List.mem_reverse.mp hc))

theorem trim_trim_ne_nil {cs : List Char} (h : trim cs ≠ []) : trim (trim cs) ≠ [] := by
  have hne : (trimStart cs).reverse.dropWhile isBlank ≠ [] := fun hd => by
    simp [trim, trimEnd, dropEnding, hd] at h
  have hhead := List.head_dropWhile_not isBlank hne
  rw [Ne, trim_eq_nil_iff]
  intro hall
  rw [hall _ (List.mem_reverse.mpr (List.head_mem hne))] at hhead
  cases hhead

end Text

/-! ## Reading what is written -/

section Outcome

variable {E A B : Type}

theorem Outcome.of_bind_eq_ok {x : Except E A} {f : A → Except E B} {b : B}
    (h : (x >>= f) = .ok b) : ∃ a, x = .ok a ∧ f a = .ok b := by
  cases x with
  | error e => cases h
  | ok a => exact ⟨a, rfl, h⟩

theorem Outcome.of_map_eq_ok {x : Except E A} {f : A → B} {b : B} (h : f <$> x = .ok b) :
    ∃ a, x = .ok a ∧ f a = b := by
  cases x with
  | error e => cases h
  | ok a => exact ⟨a, rfl, Except.ok.inj h⟩

end Outcome

def Reader.Yields {α A : Type} (P : A → Prop) (x : Reader α A) : Prop :=
  ∀ ⦃ts a rest⦄, x ts = .ok (a, rest) → P a

namespace Reader.Yields

variable {α A B : Type} {P : A → Prop} {Q : B → Prop} {x : Reader α A} {f : A → Reader α B}

theorem pure {a : A} (ha : P a) : Yields P (Pure.pure a : Reader α A) := by
  rintro ts _ rest ⟨⟩
  exact ha

theorem bind (hx : Yields P x) (hf : ∀ a, P a → Yields Q (f a)) : Yields Q (x >>= f) := by
  intro ts b rest h
  obtain ⟨⟨a, r⟩, ha, h⟩ := Outcome.of_bind_eq_ok h
  exact hf a (hx ha) h

theorem skip (hf : ∀ a, Yields Q (f a)) : Yields Q (x >>= f) :=
  bind (P := fun _ => True) (fun _ _ _ _ => trivial) fun a _ => hf a

theorem readHeader [Scalar α] {l : Line} {a : A} (hx : Yields P x) (h : l.readHeader x = .ok a) :
    P a := by
  unfold Line.readHeader Setting.readTokens at h
  cases ht : (Token.tokenize l.column l.text : Except _ (List (Placed α))) with
  | error e =>
    rw [ht] at h
    cases h
  | ok tokens =>
    rw [ht] at h
    dsimp only at h
    cases hr : x tokens with
    | error e =>
      rw [hr] at h
      cases h
    | ok r =>
      rw [hr] at h
      cases h
      exact hx hr

end Reader.Yields

variable [Scalar.Ordered α]

namespace Quantity

theorem written_between {a b : α} (h : Scalar.isFinite (b - a)) : (between a b).Written := by
  unfold between
  split
  · next hab => exact .range hab
  · next hab => exact .range ((Scalar.Ordered.le_or_le h).resolve_left hab)

theorem written_read {cs : List Char} {q : Quantity α} (hcs : Text.trim cs ≠ [])
    (h : read cs = .ok q) : q.Written := by
  unfold read at h
  dsimp only at h
  rw [if_neg (by simpa using hcs)] at h
  split at h
  · obtain ⟨v, -, h⟩ := Outcome.of_bind_eq_ok h
    exact Except.ok.inj h ▸ .fixed v
  · obtain ⟨low, -, h⟩ := Outcome.of_bind_eq_ok h
    obtain ⟨high, -, h⟩ := Outcome.of_bind_eq_ok h
    split at h
    · next hf => exact Except.ok.inj h ▸ written_between hf
    · cases h

end Quantity

namespace Reader

theorem written_quantity {ts rest : List (Placed α)} {q : Quantity α}
    (h : quantity ts = .ok (q, rest)) : q.Written := by
  obtain ⟨⟨a, r₁⟩, -, h⟩ := Outcome.of_bind_eq_ok h
  obtain ⟨⟨isRange, r₂⟩, -, h⟩ := Outcome.of_bind_eq_ok h
  dsimp only at h
  split at h
  · obtain ⟨⟨b, r₃⟩, -, h⟩ := Outcome.of_bind_eq_ok h
    dsimp only at h
    split at h
    · next hf =>
      cases h
      exact Quantity.written_between hf
    · cases h
  · cases h
    exact .fixed a

theorem written_statementHeader :
    (statementHeader (α := α)).Yields fun h => ∀ q ∈ h.every, q.Written := by
  have hquantity : (some <$> quantity (α := α)).Yields fun every => ∀ q ∈ every, q.Written := by
    rintro ts _ rest h
    obtain ⟨⟨q, r⟩, hq, ⟨⟩⟩ := Outcome.of_map_eq_ok h
    rintro _ ⟨⟩
    exact written_quantity hq
  have hrest {x : Reader α (Option (Quantity α))}
      (hx : x.Yields fun every => ∀ q ∈ every, q.Written) (kind : StatementKind) (clip : String)
      (count : Nat) :
      Yields (α := α) (fun h : StatementHeader α => ∀ q ∈ h.every, q.Written)
        (do
          let every ← x
          take .colon colon?
          done
          pure { kind, clip, count, every }) :=
    hx.bind fun _ he => .skip fun _ => .skip fun _ => .pure he
  have hafter (count : Nat) (kind : StatementKind) (clip : String) (repeats : Bool) :
      Yields (α := α) (fun h : StatementHeader α => ∀ q ∈ h.every, q.Written)
        (if repeats = true then do
          let every ← some <$> quantity
          take .colon colon?
          done
          pure { kind, clip, count, every }
        else do
          let every ← pure none
          take .colon colon?
          done
          pure { kind, clip, count, every }) := by
    split
    · exact hrest hquantity kind clip count
    · exact hrest (.pure fun q hq => absurd hq (Option.not_mem_none q)) kind clip count
  unfold statementHeader
  refine .skip fun ts => ?_
  dsimp only
  split
  · exact .skip fun _ => .skip fun _ => .skip fun count => .skip fun kind => .skip fun clip =>
      .skip fun repeats => hafter count kind clip repeats
  · exact .skip fun count => .skip fun kind => .skip fun clip => .skip fun repeats =>
      hafter count kind clip repeats

end Reader

namespace Setting

theorem written_readQuantity {column : Nat} {cs : List Char} {q : Quantity α}
    (hcs : Text.trim cs ≠ []) (h : readQuantity column cs = .ok q) : q.Written := by
  unfold readQuantity at h
  split at h
  · next hq =>
    cases h
    exact Quantity.written_read hcs hq
  · cases h

theorem written_readAxis {strict : Bool} {column : Nat} {cs : List Char} {a : AxisDef α}
    (hcs : Text.trim cs ≠ []) (h : readAxis strict column cs = .ok a) : a.Written := by
  unfold readAxis at h
  split at h
  · obtain ⟨spec, -, rfl⟩ := Outcome.of_map_eq_ok h
    trivial
  · obtain ⟨q, hq, rfl⟩ := Outcome.of_map_eq_ok h
    exact written_readQuantity hcs hq

/-- What a property line says is written in it, since its value is not blank. -/
theorem written_read {strict : Bool} {owner : Owner} {l : Line} {s : Setting α}
    (h : read strict owner l = .ok s) : s.Written := by
  unfold read at h
  dsimp only at h
  split at h
  · cases h
  · next hne =>
    have hcs : Text.trim (value l) ≠ [] := Text.trim_trim_ne_nil (by simpa [value] using hne)
    have haxis (f : AxisDef α → Setting α) (hf : ∀ a, a.Written → (f a).Written)
        (h : f <$> readAxis strict (valueColumn l) (value l) = .ok s) : s.Written := by
      obtain ⟨a, ha, rfl⟩ := Outcome.of_map_eq_ok h
      exact hf a (written_readAxis hcs ha)
    have hquantity (f : Quantity α → Setting α) (hf : ∀ q, q.Written → (f q).Written)
        (h : f <$> readQuantity (valueColumn l) (value l) = .ok s) : s.Written := by
      obtain ⟨q, hq, rfl⟩ := Outcome.of_map_eq_ok h
      exact hf q (written_readQuantity hcs hq)
    split at h
    · exact haxis volume (fun _ ha => ha) h
    · exact haxis pitch (fun _ ha => ha) h
    · exact hquantity startsAt (fun _ hq => hq) h
    · exact hquantity duration (fun _ hq => hq) h
    · exact hquantity fadeIn (fun _ hq => hq) h
    · exact hquantity fadeOut (fun _ hq => hq) h
    · exact hquantity every (fun _ hq => hq) h
    · obtain ⟨b, -, rfl⟩ := Outcome.of_map_eq_ok h
      trivial
    · split at h
      · cases h
      · obtain ⟨m, -, rfl⟩ := Outcome.of_map_eq_ok h
        trivial
    · split at h
      · cases h
      · obtain ⟨vs, -, rfl⟩ := Outcome.of_map_eq_ok h
        trivial
    · cases h

end Setting

/-- All times, volumes and pitches of a script are written. -/
theorem Properties.kept_written : Properties.Kept (Properties.Written (α := α)) where
  empty := written_of_every fun q hq => absurd hq (Option.not_mem_none q)
  header hr := written_of_every (Reader.written_statementHeader.readHeader hr)
  setting {strict owner l s p} hs hp := by
    have hw := Setting.written_read hs
    cases s with
    | volume a => exact { hp with volume := by rintro _ ⟨⟩; exact hw }
    | pitch a => exact { hp with pitch := by rintro _ ⟨⟩; exact hw }
    | startsAt q => exact { hp with startsAt := by rintro _ ⟨⟩; exact hw }
    | duration q => exact { hp with duration := by rintro _ ⟨⟩; exact hw }
    | fadeIn q => exact { hp with fadeIn := by rintro _ ⟨⟩; exact hw }
    | fadeOut q => exact { hp with fadeOut := by rintro _ ⟨⟩; exact hw }
    | every q => exact { hp with every := by rintro _ ⟨⟩; exact hw }
    | overlap b => exact { hp with }
    | movement m => exact { hp with }
    | visuals vs => exact { hp with }

end Soundscape
