import Soundscape.Proofs.Script.Columns
import Soundscape.Proofs.Script.FirstWord
import Soundscape.Proofs.Script.Grammar

/-!
# Volumes and pitches

The leading word of a value decides whether it is read as a call or as a quantity.  A call of the
grammar has the name of its motion as its leading word (`Setting.head_of_spelled`), so the calls
that are read are those of the grammar (`Setting.readAxis_iff`).  A value that has such a word and
is no call is not read in any other way, and leaves the volume or pitch as it was.
-/

namespace Soundscape

namespace Setting

theorem endsHead_of_isAlpha {c : Char} (h : c.isAlpha) : endsHead c = false := by
  have hne : c ≠ '(' := by
    rintro rfl
    exact absurd h (by decide)
  simp [endsHead, isBlank_eq_false (.inl h), hne]

variable {α : Type} [Scalar α] {text : List Char} {column : Nat}

/-- The leading word of a call is the name of its motion. -/
theorem head_of_spelled {spec : Interpolation α} {ts : List (Placed α)}
    (hhead : ∀ c ∈ text.head?, isBlank c = false) (hts : Token.tokenize column text = .ok ts)
    (hspec : spec.Spelled (ts.map Placed.token)) :
    Text.lower (head text) = spec.motion.word.toList := by
  generalize hw : ts.map Placed.token = w at hspec
  cases hspec with
  | @mk m word _ _ _ _ _ _ _ _ _ _ hm _ _ _ _ =>
    obtain ⟨t, _, rfl, ht, hw⟩ := List.map_eq_cons_iff.mp hw
    obtain ⟨u, rest, rfl, hu, -⟩ := List.map_eq_cons_iff.mp hw
    have hletters (word' : List Char) (hword : t.token = Token.ofWord word') :
        ∀ c ∈ word', c.isAlpha := by
      rw [Token.eq_of_ofWord_ident (hword.symm.trans ht)]
      apply Text.isAlpha_of_lower
      rw [hm]
      cases m <;> decide
    have hword := Token.ofWord_takeWhile (p := (!endsHead ·)) hhead hts (by rw [ht]; rfl) hletters
      (fun c hc => by simp [endsHead_of_isAlpha hc]) (fun c hc => by simp [endsHead, hc])
      (fun c hc => by
        rw [hu] at hc
        obtain rfl : c = '(' := hc
        rfl)
    show Text.lower (text.takeWhile (!endsHead ·)) = _
    rw [Token.eq_of_ofWord_ident (hword.symm.trans ht)]
    exact hm

theorem readAxis_of_head {m : Motion} (hm : Text.lower (head text) = m.word.toList) :
    readAxis false column text = AxisDef.animated <$>
      readTokens column text fun ts => Prod.fst <$> Reader.call (α := α) false ts := by
  unfold readAxis
  rw [if_pos (Option.isSome_iff_exists.mpr ⟨m, Motion.ofKeyword?_eq_some.mpr hm⟩)]

theorem readAxis_of_not_head (hm : ∀ m : Motion, Text.lower (head text) ≠ m.word.toList) :
    readAxis false column text =
      (AxisDef.plain <$> (Quantity.read text).mapError fun e => (.quantity e, column) :
        Outcome α (AxisDef α)) := by
  have hnone : ¬ (Motion.ofKeyword? (head text)).isSome := by
    rw [Option.isSome_iff_exists]
    rintro ⟨m, h⟩
    exact hm m (Motion.ofKeyword?_eq_some.mp h)
  unfold readAxis readQuantity
  rw [if_neg hnone]
  cases Quantity.read (α := α) text <;> rfl

theorem setting_of_readAxis {strict : Bool} {owner : Owner} {l : Line} {props : Properties α}
    (hkey : key l = "volume" ∨ key l = "pitch")
    (h : ∃ e, (readAxis strict (valueColumn l) (value l) : Outcome α _) = .error e) :
    (l.setting strict owner props).1 = props := by
  obtain ⟨e, he⟩ := h
  have hread : ∃ e, (read strict owner l : Outcome α _) = .error e := by
    unfold read
    dsimp only
    split
    · exact ⟨_, rfl⟩
    · obtain hkey | hkey := hkey
      all_goals
        rw [hkey, he]
        exact ⟨_, rfl⟩
  obtain ⟨e, he⟩ := hread
  unfold Line.setting
  rw [he]

variable [Scalar.Ordered α]

theorem readAxis_eq_animated {spec : Interpolation α}
    (hhead : ∀ c ∈ text.head?, isBlank c = false) :
    readAxis false column text = .ok (.animated spec) ↔
      ∃ ts, Token.tokenize column text = .ok ts ∧ spec.Spelled (ts.map Placed.token) := by
  constructor
  · intro h
    by_cases hm : ∃ m : Motion, Text.lower (head text) = m.word.toList
    · obtain ⟨m, hm⟩ := hm
      rw [readAxis_of_head hm] at h
      obtain ⟨_, hcall, ⟨⟩⟩ := Outcome.of_map_eq_ok h
      exact Reader.GoesBy.call.readTokens_eq_ok.mp hcall
    · rw [readAxis_of_not_head (not_exists.mp hm)] at h
      obtain ⟨q, -, hq⟩ := Outcome.of_map_eq_ok h
      cases hq
  · rintro ⟨ts, hts, hspec⟩
    rw [readAxis_of_head (head_of_spelled hhead hts hspec),
      Reader.GoesBy.call.readTokens_eq_ok.mpr ⟨ts, hts, hspec⟩]
    rfl

theorem readAxis_eq_error {m : Motion} (hm : Text.lower (head text) = m.word.toList)
    (hno : ¬ ∃ (spec : Interpolation α) (ts : List (Placed α)),
      Token.tokenize column text = .ok ts ∧ spec.Spelled (ts.map Placed.token)) :
    ∃ e, (readAxis false column text : Outcome α _) = .error e := by
  rw [readAxis_of_head hm]
  cases hcall : readTokens column text fun ts => Prod.fst <$> Reader.call (α := α) false ts with
  | error e => exact ⟨e, rfl⟩
  | ok spec =>
    obtain ⟨ts, hts, hspec⟩ := Reader.GoesBy.call.readTokens_eq_ok.mp hcall
    exact absurd ⟨spec, ts, hts, hspec⟩ hno

/-- A volume or pitch is an interpolation if and only if its tokens are those of a call.  If the
leading word is the name of a motion and they are not, then it is refused, and a line with it changes
nothing.  If the leading word is another one, then it is read as a quantity. -/
theorem readAxis_iff (column : Nat) (htext : Text.trim text = text) :
    (∀ spec : Interpolation α, readAxis false column text = .ok (.animated spec) ↔
      ∃ ts, Token.tokenize column text = .ok ts ∧ spec.Spelled (ts.map Placed.token)) ∧
    (∀ m : Motion, Text.lower (head text) = m.word.toList →
      (¬ ∃ (spec : Interpolation α) (ts : List (Placed α)),
        Token.tokenize column text = .ok ts ∧ spec.Spelled (ts.map Placed.token)) →
      (∃ e, (readAxis false column text : Outcome α _) = .error e) ∧
      ∀ (owner : Owner) (l : Line) (props : Properties α), value l = text →
        key l = "volume" ∨ key l = "pitch" → (l.setting false owner props).1 = props) ∧
    ((∀ m : Motion, Text.lower (head text) ≠ m.word.toList) →
      readAxis false column text =
        (AxisDef.plain <$> (Quantity.read text).mapError fun e => (.quantity e, column) :
          Outcome α (AxisDef α))) := by
  have hhead : ∀ c ∈ text.head?, isBlank c = false := by
    rw [← htext]
    exact fun c => Text.head_trim
  refine ⟨fun spec => readAxis_eq_animated hhead, fun m hm hno => ?_, readAxis_of_not_head⟩
  obtain ⟨e, he⟩ := readAxis_eq_error hm hno
  refine ⟨⟨e, he⟩, fun owner l props hvalue hkey => setting_of_readAxis hkey ?_⟩
  -- the value is refused in whatever column it stands
  have hagree := readAxis_agree (α := α) false column (valueColumn l) text
  rw [he] at hagree
  rw [hvalue]
  generalize (readAxis false (valueColumn l) text : Outcome α _) = x at hagree ⊢
  cases hagree with
  | error => exact ⟨_, rfl⟩

/-- A call with a range written the other way round, and a name of a motion without a call. -/
theorem readAxis_goBetween :
    let text := "GoBetween(1..0.5 and 2 as sine in 3)".toList
    let other := "goto 0.5".toList
    let l : Line := ⟨4, 2, 3, "volume = goto 0.5".toList⟩
    let props : Properties Float := { volume := some (.plain (.fixed 1)) }
    Text.trim text = text ∧ Text.trim other = other ∧
      readAxis false 10 text = (.ok (.animated
        ⟨.gobetween, .range 0.5 1, .fixed 2, .fixed 3, "sine", Ease.ofName "sine", 1, true⟩) :
          Outcome Float _) ∧
      (l.setting false .statement props).1 = props := by
  intro text other l props
  have htext : Text.trim text = text := by decide +kernel
  have hother : Text.trim other = other := by decide +kernel
  have hts : Token.tokenize 10 text = .ok [⟨.ident "GoBetween", 10⟩, ⟨.openParen, 19⟩,
      ⟨.number (1 : Float), 20⟩, ⟨.dots, 21⟩, ⟨.number 0.5, 23⟩, ⟨.keyword .and, 27⟩,
      ⟨.number 2, 31⟩, ⟨.keyword .as, 33⟩, ⟨.ident "sine", 36⟩, ⟨.keyword .in, 41⟩,
      ⟨.number 3, 44⟩, ⟨.closeParen, 45⟩] := by decide +kernel
  have hspec : Interpolation.Spelled
      ⟨.gobetween, .range 0.5 1, .fixed 2, .fixed 3, "sine", Ease.ofName "sine", 1, true⟩
      [.ident "GoBetween", .openParen, .number (1 : Float), .dots, .number 0.5, .keyword .and,
        .number 2, .keyword .as, .ident "sine", .keyword .in, .number 3, .closeParen] :=
    .mk (by decide +kernel) (.reversed (by decide +kernel) (by decide +kernel)) (.fixed 2) (.fixed 3)
      .absent
  have hnone : ¬ ∃ (spec : Interpolation Float) (ts : List (Placed Float)),
      Token.tokenize 12 other = .ok ts ∧ spec.Spelled (ts.map Placed.token) := by
    have hother : Token.tokenize 12 other =
        .ok [⟨.ident "goto", 12⟩, ⟨.number (0.5 : Float), 17⟩] := by decide +kernel
    rw [hother]
    rintro ⟨spec, _, ⟨⟩, hspec⟩
    generalize hw : List.map Placed.token _ = w at hspec
    cases hspec
    simp at hw
  exact ⟨htext, hother, ((readAxis_iff 10 htext).1 _).mpr ⟨_, hts, hspec⟩,
    ((readAxis_iff 12 hother).2.1 .goto (by decide +kernel) hnone).2 .statement l props
      (by decide +kernel) (.inl (by decide +kernel))⟩

end Setting

end Soundscape
