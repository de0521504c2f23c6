import Bracketing.CommandLine.Run
import Bracketing.Proofs.ExceptLaws
import Mathlib.Data.List.TakeDrop
import Mathlib.Data.List.TakeWhile

namespace Bracketing.CommandLine

/-- Whether an argument before any `--` looks like a piece: no hyphen, a lone one or a number. -/
def looksLikePiece (argument : String) : Bool :=
  match argument.toList with
  | '-' :: c :: cs => looksNumeric (c :: cs)
  | _ => true

def takesNext (option : String) : Bool :=
  option == "--strategy" || option == "--log-level" ||
    match option.toList with
    | '-' :: cs => cs.dropWhile (· == 'g') == ['s'] || cs.dropWhile (· == 'g') == ['l']
    | _ => false

def turnsOnTrees (option : String) : Bool :=
  option == "--groupings" || option.toList.take 2 == ['-', 'g']

inductive Saying
  | nothing
  | needs (option : Setting)
  | sets (option : Setting) (value : String)
  | help
  | version

namespace Saying

def apply (s : Settings) : Saying → Except Misuse Step
  | .nothing => .ok (.ready s)
  | .needs option => .ok (.needs option s)
  | .sets option value => return .ready (← s.set option value)
  | .help => .ok (.done .help)
  | .version => .ok (.done .version)

def takesNext : Saying → Bool
  | .needs _ => true
  | _ => false

def applyAfter (trees : Bool) (s : Settings) (saying : Saying) : Except Misuse Step :=
  (if trees then s.turnOnTrees else .ok s) >>= fun t => saying.apply t

end Saying

theorem exists_saying_of_withValue (option : Setting) (cs : List Char) :
    ∃ saying : Saying, saying.takesNext = cs.isEmpty ∧
      ∀ s, withValue s option cs = saying.apply s := by
  fun_cases withValue Settings.initial option cs with
  | case1 => exact ⟨.needs option, rfl, fun _ => rfl⟩
  | case2 value => exact ⟨.sets option (String.ofList value), rfl, fun _ => rfl⟩
  | case3 _ hne hequals =>
    refine ⟨.sets option (String.ofList cs), ?_, fun s => withValue.eq_3 s option cs hne hequals⟩
    simpa [Saying.takesNext] using hne

theorem exists_saying_of_readLetters {s : Settings} {cs : List Char} {step : Step}
    (hg : cs.head? ≠ some 'g') (h : readLetters s cs = .ok step) :
    ∃ saying : Saying, saying.takesNext = (cs == ['s'] || cs == ['l']) ∧
      ∀ s, readLetters s cs = saying.apply s := by
  fun_cases readLetters s cs with
  | case1 => exact ⟨.nothing, rfl, fun _ => rfl⟩
  | case2 cs => exact absurd rfl hg
  | case3 cs =>
    obtain ⟨saying, htakes, happly⟩ := exists_saying_of_withValue .strategy cs
    refine ⟨saying, ?_, happly⟩
    rw [htakes]
    cases cs <;> simp
  | case4 cs =>
    obtain ⟨saying, htakes, happly⟩ := exists_saying_of_withValue .logLevel cs
    refine ⟨saying, ?_, happly⟩
    rw [htakes]
    cases cs <;> simp
  | case5 cs => exact ⟨.help, by simp [Saying.takesNext], fun _ => rfl⟩
  | case6 cs => exact ⟨.version, by simp [Saying.takesNext], fun _ => rfl⟩
  | case7 c cs hg' hs hl hh hV =>
    rw [readLetters.eq_7 s c cs hg' hs hl hh hV] at h
    cases h

def Settings.withTrees (s : Settings) : Settings := { s with showTrees := true }

theorem turnOnTrees_eq_ok_iff {s t : Settings} :
    s.turnOnTrees = .ok t ↔ s.showTrees = false ∧ s.withTrees = t := by
  unfold Settings.turnOnTrees Settings.withTrees
  cases s.showTrees <;> simp

theorem dropWhile_eq_self_of_head_ne {cs : List Char} (h : cs.head? ≠ some 'g') :
    cs.dropWhile (· == 'g') = cs := by
  cases cs with
  | nil => rfl
  | cons c cs =>
    have hc : (c == 'g') = false := by simpa using h
    rw [List.dropWhile_cons, hc]
    rfl

theorem head_ne_of_readLetters {s : Settings} {cs : List Char} {step : Step}
    (hs : s.showTrees = true) (h : readLetters s cs = .ok step) : cs.head? ≠ some 'g' := by
  cases cs with
  | nil => simp
  | cons c cs =>
    intro hc
    obtain rfl : c = 'g' := by simpa using hc
    obtain ⟨t, ht, -⟩ := Except.bind_eq_ok_iff.1 h
    rw [turnOnTrees_eq_ok_iff, hs] at ht
    cases ht.1

theorem exists_saying_of_letters {s : Settings} {cs : List Char} {step : Step}
    (h : readLetters s cs = .ok step) :
    ∃ saying : Saying,
      saying.takesNext = (cs.dropWhile (· == 'g') == ['s'] || cs.dropWhile (· == 'g') == ['l']) ∧
      ∀ s, readLetters s cs = saying.applyAfter (cs.head? == some 'g') s := by
  by_cases hg : cs.head? = some 'g'
  · obtain ⟨cs, rfl⟩ := List.head?_eq_some_iff.1 hg
    obtain ⟨t, ht, hrest⟩ := Except.bind_eq_ok_iff.1 h
    have hshow : t.showTrees = true := by
      rw [← (turnOnTrees_eq_ok_iff.1 ht).2, Settings.withTrees]
    -- Trees are turned on by now, so another letter for them would be refused.
    have hhead := head_ne_of_readLetters hshow hrest
    obtain ⟨saying, htakes, happly⟩ := exists_saying_of_readLetters hhead hrest
    refine ⟨saying, ?_, fun s => ?_⟩
    · rw [List.dropWhile_cons_of_pos rfl, dropWhile_eq_self_of_head_ne hhead, htakes]
    · simp only [readLetters, happly]
      rfl
  · obtain ⟨saying, htakes, happly⟩ := exists_saying_of_readLetters hg h
    refine ⟨saying, ?_, fun s => ?_⟩
    · rw [dropWhile_eq_self_of_head_ne hg, htakes]
    · rw [happly, beq_eq_false_iff_ne.2 hg]
      rfl

theorem exists_saying_of_readName {s : Settings} {name : String} {value : Option String}
    {step : Step} (h : readName s name value = .ok step) :
    ∃ saying : Saying,
      saying.takesNext = (value.isNone && (name == "strategy" || name == "log-level")) ∧
      ∀ s, readName s name value = saying.applyAfter (value.isNone && name == "groupings") s := by
  fun_cases readName s name value with
  | case1 => exact ⟨.needs .strategy, rfl, fun _ => rfl⟩
  | case2 => exact ⟨.needs .logLevel, rfl, fun _ => rfl⟩
  | case3 => exact ⟨.nothing, rfl, fun _ => rfl⟩
  | case4 => exact ⟨.help, rfl, fun _ => rfl⟩
  | case5 => exact ⟨.version, rfl, fun _ => rfl⟩
  | case6 _ hstrategy hlevel htrees hhelp hversion =>
    rw [readName.eq_6 s name hstrategy hlevel htrees hhelp hversion] at h
    cases h
  | case7 value => exact ⟨.sets .strategy value, rfl, fun _ => rfl⟩
  | case8 value => exact ⟨.sets .logLevel value, rfl, fun _ => rfl⟩
  | case9 value => cases h
  | case10 value => cases h
  | case11 value => cases h
  | case12 _ value hstrategy hlevel htrees hhelp hversion =>
    rw [readName.eq_12 s name value hstrategy hlevel htrees hhelp hversion] at h
    cases h

section Looks

variable {argument : String} {c : Char} {cs : List Char}

theorem eq_dashes_append_iff (name : String) (h : argument.toList = '-' :: '-' :: cs) :
    argument = "--" ++ name ↔ String.ofList cs = name := by
  rw [← String.toList_inj, h, ← String.toList_inj]
  simp

theorem takesNext_of_dashes (h : argument.toList = '-' :: '-' :: cs) :
    takesNext argument = (String.ofList cs == "strategy" || String.ofList cs == "log-level") := by
  have hstrategy := eq_dashes_append_iff "strategy" h
  have hlevel := eq_dashes_append_iff "log-level" h
  rw [Bool.eq_iff_iff]
  simpa [takesNext, h] using or_congr hstrategy hlevel

theorem turnsOnTrees_of_dashes (h : argument.toList = '-' :: '-' :: cs) :
    turnsOnTrees argument = (String.ofList cs == "groupings") := by
  have htrees := eq_dashes_append_iff "groupings" h
  rw [Bool.eq_iff_iff]
  simpa [turnsOnTrees, h] using htrees

theorem takesNext_of_letters (h : argument.toList = '-' :: c :: cs) (hc : c ≠ '-') :
    takesNext argument = ((c :: cs).dropWhile (· == 'g') == ['s'] ||
      (c :: cs).dropWhile (· == 'g') == ['l']) := by
  have hne : ∀ name : String, argument ≠ "--" ++ name := by
    rintro name rfl
    simp at h
    exact hc h.1.symm
  have hstrategy : argument ≠ "--strategy" := hne "strategy"
  have hlevel : argument ≠ "--log-level" := hne "log-level"
  simp [takesNext, h, hstrategy, hlevel]

theorem turnsOnTrees_of_letters (h : argument.toList = '-' :: c :: cs) (hc : c ≠ '-') :
    turnsOnTrees argument = ((c :: cs).head? == some 'g') := by
  have htrees : argument ≠ "--groupings" := by
    rintro rfl
    simp at h
    exact hc h.1.symm
  simp [turnsOnTrees, h, htrees]

theorem ofList_ne_of_span {name value : List Char} {equals : Char} {text : String}
    (h : cs.span (· != '=') = (name, equals :: value)) (htext : ∀ c ∈ text.toList, c ≠ '=') :
    String.ofList cs ≠ text := by
  rintro rfl
  rw [List.span_eq_takeWhile_dropWhile, Prod.mk.injEq] at h
  have hnil : cs.dropWhile (· != '=') = [] := by
    rw [List.dropWhile_eq_nil_iff]
    simpa using htext
  rw [hnil] at h
  cases h.2

theorem readArgument_of_letters {s : Settings} (h : argument.toList = '-' :: c :: cs)
    (hc : c ≠ '-') (hnumeric : ¬ looksNumeric (c :: cs)) :
    readArgument s argument = readLetters s (c :: cs) := by
  unfold readArgument
  split
  next ds hds =>
    rw [h] at hds
    cases hds
    exact absurd rfl hc
  next d ds _ hds =>
    rw [h] at hds
    cases hds
    exact if_neg hnumeric
  next _ hhyphen => exact absurd h (hhyphen c cs)

theorem looksNumeric_hyphen (cs : List Char) : looksNumeric ('-' :: cs) = false := by
  have hmantissa : ∀ cs, looksNumeric.digitsWithPoint ('-' :: cs) = false := by
    intro cs
    simp [looksNumeric.digitsWithPoint]
  rw [looksNumeric, List.span_eq_takeWhile_dropWhile, List.takeWhile_cons_of_pos (by decide)]
  split
  next mantissa h =>
    rw [← (Prod.mk.inj h).1, hmantissa]
  next mantissa _ exponent h =>
    rw [← (Prod.mk.inj h).1, hmantissa, Bool.and_false, Bool.false_and, Bool.false_and]

theorem readArgument_of_piece {s : Settings} (h : looksLikePiece argument = true) :
    readArgument s argument = .ok (.ready (s.addPiece argument)) := by
  unfold readArgument
  split
  next cs hchars => simp [looksLikePiece, hchars, looksNumeric_hyphen] at h
  next c cs _ hchars =>
    simp only [looksLikePiece, hchars] at h
    exact if_pos h
  next => rfl

end Looks

theorem exists_saying_of_option {s : Settings} {argument : String} {step : Step}
    (hlook : looksLikePiece argument = false) (h : readArgument s argument = .ok step) :
    ∃ saying : Saying, saying.takesNext = takesNext argument ∧
      ∀ s, readArgument s argument = saying.applyAfter (turnsOnTrees argument) s := by
  fun_cases readArgument s argument with
  | case1 cs hchars name hspan =>
    obtain rfl : cs = name := by
      rw [List.span_eq_takeWhile_dropWhile, Prod.mk.injEq] at hspan
      rw [← List.takeWhile_append_dropWhile (p := (· != '=')) (l := cs), hspan.1, hspan.2,
        List.append_nil]
    have hread : ∀ s, readArgument s argument = readName s (String.ofList cs) none := by
      intro s
      simp only [readArgument, hchars, hspan]
    rw [hread] at h
    obtain ⟨saying, htakes, happly⟩ := exists_saying_of_readName h
    refine ⟨saying, ?_, fun s => ?_⟩
    · rw [takesNext_of_dashes hchars, htakes]
      rfl
    · rw [turnsOnTrees_of_dashes hchars, hread, happly]
      rfl
  | case2 cs hchars name equals value hspan =>
    have hread : ∀ s, readArgument s argument =
        readName s (String.ofList name) (some (String.ofList value)) := by
      intro s
      simp only [readArgument, hchars, hspan]
    rw [hread] at h
    obtain ⟨saying, htakes, happly⟩ := exists_saying_of_readName h
    have hstrategy : String.ofList cs ≠ "strategy" := ofList_ne_of_span hspan (by simp)
    have hlevel : String.ofList cs ≠ "log-level" := ofList_ne_of_span hspan (by simp)
    have htrees : String.ofList cs ≠ "groupings" := ofList_ne_of_span hspan (by simp)
    refine ⟨saying, ?_, fun s => ?_⟩
    · rw [takesNext_of_dashes hchars, htakes, beq_eq_false_iff_ne.2 hstrategy,
        beq_eq_false_iff_ne.2 hlevel]
      rfl
    · rw [turnsOnTrees_of_dashes hchars, hread, happly, beq_eq_false_iff_ne.2 htrees]
      rfl
  | case3 c cs hc hchars hnumeric =>
    simp [looksLikePiece, hchars, hnumeric] at hlook
  | case4 c cs hc hchars hnumeric =>
    have hread : ∀ s, readArgument s argument = readLetters s (c :: cs) := fun s =>
      readArgument_of_letters hchars hc hnumeric
    rw [hread] at h
    obtain ⟨saying, htakes, happly⟩ := exists_saying_of_letters h
    refine ⟨saying, ?_, fun s => ?_⟩
    · rw [takesNext_of_letters hchars hc, htakes]
    · rw [turnsOnTrees_of_letters hchars hc, hread, happly]
  | case5 hdashes hhyphen =>
    unfold looksLikePiece at hlook
    split at hlook
    next c cs hchars => exact absurd hchars (hhyphen c cs)
    next => cases hlook

theorem eq_of_set {s t : Settings} {option : Setting} {value : String}
    (h : s.set option value = .ok t) :
    t.pieces = s.pieces ∧ t.showTrees = s.showTrees ∧
      s.withTrees.set option value = .ok t.withTrees := by
  cases option
  all_goals
    simp only [Settings.set] at h
    split at h
    next => cases h
    next chosen hvalue =>
      split at h
      next => cases h
      next hset =>
        cases h
        simp [Settings.set, Settings.withTrees, hvalue, hset]

theorem Saying.apply_cases {saying : Saying} {s : Settings} {step : Step}
    (h : saying.apply s = .ok step) :
    (∃ t, step = .ready t ∧ saying.takesNext = false ∧ t.pieces = s.pieces ∧
        t.showTrees = s.showTrees ∧ saying.apply s.withTrees = .ok (.ready t.withTrees)) ∨
      (∃ option, step = .needs option s ∧ saying.takesNext = true ∧
        saying.apply s.withTrees = .ok (.needs option s.withTrees)) ∨
      step = .done .help ∨ step = .done .version := by
  cases saying with
  | nothing =>
    cases h
    exact .inl ⟨s, rfl, rfl, rfl, rfl, rfl⟩
  | needs option =>
    cases h
    exact .inr (.inl ⟨option, rfl, rfl, rfl⟩)
  | sets option value =>
    obtain ⟨t, hset, ht⟩ := Except.bind_eq_ok_iff.1 h
    cases ht
    obtain ⟨hpieces, hshow, hset'⟩ := eq_of_set hset
    refine .inl ⟨t, rfl, rfl, hpieces, hshow, ?_⟩
    rw [apply, hset']
    rfl
  | help =>
    cases h
    exact .inr (.inr (.inl rfl))
  | version =>
    cases h
    exact .inr (.inr (.inr rfl))

theorem Saying.exists_apply_of_applyAfter {saying : Saying} {trees : Bool} {s : Settings}
    {step : Step} (h : saying.applyAfter trees s = .ok step) :
    ∃ t, saying.apply t = .ok step ∧ t.pieces = s.pieces ∧ t.showTrees = (s.showTrees || trees) ∧
      (trees = false → s = t) := by
  rw [applyAfter, Except.bind_eq_ok_iff] at h
  obtain ⟨t, ht, hstep⟩ := h
  cases trees with
  | false =>
    cases ht
    exact ⟨s, hstep, rfl, (Bool.or_false _).symm, fun _ => rfl⟩
  | true =>
    obtain ⟨-, rfl⟩ := turnOnTrees_eq_ok_iff.1 ht
    exact ⟨s.withTrees, hstep, rfl, (Bool.or_true _).symm, nofun⟩

structure Leaves (option : String) (s t : Settings) : Prop where
  pieces : t.pieces = s.pieces
  showTrees : t.showTrees = (s.showTrees || turnsOnTrees option)

/-- An option leaves the pieces alone and turns on trees by its looks. One that does not do so is
accepted with trees turned on beforehand as well. -/
theorem option_cases {s : Settings} {argument : String} {step : Step}
    (hlook : looksLikePiece argument = false) (h : readArgument s argument = .ok step) :
    (∃ t, step = .ready t ∧ takesNext argument = false ∧ Leaves argument s t ∧
        (t.showTrees = false → readArgument s.withTrees argument = .ok (.ready t.withTrees))) ∨
      (∃ option t, step = .needs option t ∧ takesNext argument = true ∧ Leaves argument s t ∧
        (t.showTrees = false →
          readArgument s.withTrees argument = .ok (.needs option t.withTrees))) ∨
      step = .done .help ∨ step = .done .version := by
  obtain ⟨saying, htakes, hread⟩ := exists_saying_of_option hlook h
  rw [hread] at h
  obtain ⟨u, hstep, hpieces, hshow, hsame⟩ := Saying.exists_apply_of_applyAfter h
  have hagain : u.showTrees = false → ∀ {next},
      saying.apply u.withTrees = .ok next → readArgument s.withTrees argument = .ok next := by
    intro hu next hnext
    have hoff : turnsOnTrees argument = false := by
      rw [hu] at hshow
      exact (Bool.or_eq_false_iff.1 hshow.symm).2
    rw [hread, hoff, hsame hoff]
    exact hnext
  rcases Saying.apply_cases hstep with ⟨t, rfl, htakes', hpieces', hshow', hnext⟩ |
    ⟨option, rfl, htakes', hnext⟩ | hdone
  · refine .inl ⟨t, rfl, htakes ▸ htakes', ⟨hpieces'.trans hpieces, hshow'.trans hshow⟩, ?_⟩
    intro ht
    exact hagain (hshow' ▸ ht) hnext
  · refine .inr (.inl ⟨option, u, rfl, htakes ▸ htakes', ⟨hpieces, hshow⟩, ?_⟩)
    intro hu
    exact hagain hu hnext
  · exact .inr (.inr hdone)

theorem ready_of_option {s t : Settings} {argument : String}
    (hlook : looksLikePiece argument = false) (h : readArgument s argument = .ok (.ready t)) :
    takesNext argument = false ∧ Leaves argument s t ∧
      (t.showTrees = false → readArgument s.withTrees argument = .ok (.ready t.withTrees)) := by
  rcases option_cases hlook h with ⟨u, hready, hoption⟩ | ⟨_, _, hneeds, -⟩ | hdone | hdone
  · cases hready
    exact hoption
  · cases hneeds
  · cases hdone
  · cases hdone

theorem needs_of_readArgument {s t : Settings} {option : Setting} {argument : String}
    (h : readArgument s argument = .ok (.needs option t)) :
    looksLikePiece argument = false ∧ takesNext argument = true ∧ Leaves argument s t ∧
      (t.showTrees = false →
        readArgument s.withTrees argument = .ok (.needs option t.withTrees)) := by
  cases hlook : looksLikePiece argument with
  | true =>
    rw [readArgument_of_piece hlook] at h
    cases h
  | false =>
    rcases option_cases hlook h with ⟨_, hready, -⟩ | ⟨_, _, hneeds, hoption⟩ | hdone | hdone
    · cases hready
    · cases hneeds
      exact ⟨rfl, hoption⟩
    · cases hdone
    · cases hdone

end Bracketing.CommandLine
