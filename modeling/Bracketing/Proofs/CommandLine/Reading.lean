import Bracketing.Proofs.CommandLine.Options

/-!
What an accepted command line asks for, told from its arguments one by one: pieces of the expression
are those that look like no option and are no value of one, and all behind `--`. A command line that
does not ask for trees is read alike, but for the trees, with the option for them in front of it.
-/

namespace Bracketing.CommandLine

inductive Role
  | piece
  | option
  | value
  deriving DecidableEq

def rolesFrom (valueDue : Bool) : List String → List (Role × String)
  | [] => []
  | argument :: arguments =>
    if valueDue then (.value, argument) :: rolesFrom false arguments
    else if argument = "--" then arguments.map (.piece, ·)
    else if looksLikePiece argument then (.piece, argument) :: rolesFrom false arguments
    else (.option, argument) :: rolesFrom (takesNext argument) arguments

def roles (arguments : List String) : List (Role × String) := rolesFrom false arguments

def inRole (role : Role) (roles : List (Role × String)) : List String :=
  (roles.filter fun r => r.1 == role).map Prod.snd

/-- The pieces of the expression put together. -/
def joinedExpression (arguments : List String) : String :=
  String.join (inRole .piece (roles arguments))

def asksForTrees (arguments : List String) : Bool :=
  (inRole .option (roles arguments)).any turnsOnTrees

inductive Reads : Settings → List String → Settings → Prop
  | finish {s : Settings} : s.pieces ≠ [] → Reads s [] s
  | pieces {s : Settings} {pieces : List String} :
      (pieces.foldl Settings.addPiece s).pieces ≠ [] →
        Reads s ("--" :: pieces) (pieces.foldl Settings.addPiece s)
  | ready {s t u : Settings} {argument : String} {arguments : List String} :
      argument ≠ "--" → readArgument s argument = .ok (.ready t) → Reads t arguments u →
        Reads s (argument :: arguments) u
  | needs {s t u v : Settings} {option : Setting} {argument value : String}
      {arguments : List String} :
      argument ≠ "--" → readArgument s argument = .ok (.needs option t) →
        t.set option value = .ok u → Reads u arguments v →
          Reads s (argument :: value :: arguments) v

theorem finish_eq_run_iff {s t : Settings} : s.finish = .ok (.run t) ↔ s.pieces ≠ [] ∧ s = t := by
  unfold Settings.finish
  cases s.pieces <;> simp

theorem ne_done_run_of_readArgument {s t : Settings} {argument : String} {step : Step}
    (h : readArgument s argument = .ok step) : step ≠ .done (.run t) := by
  cases hlook : looksLikePiece argument with
  | true =>
    rw [readArgument_of_piece hlook] at h
    cases h
    exact nofun
  | false =>
    rcases option_cases hlook h with ⟨_, rfl, -⟩ | ⟨_, _, rfl, -⟩ | rfl | rfl <;> exact nofun

theorem reads_of_readFrom : ∀ {arguments : List String} {s t : Settings},
    readFrom s arguments = .ok (.run t) → Reads s arguments t
  | [], s, t, h => by
    obtain ⟨hne, rfl⟩ := finish_eq_run_iff.1 h
    exact .finish hne
  | argument :: arguments, s, t, h => by
    by_cases hdashes : argument = "--"
    · subst hdashes
      obtain ⟨hne, rfl⟩ := finish_eq_run_iff.1 h
      exact .pieces hne
    · rw [readFrom.eq_3 s argument arguments hdashes, Except.bind_eq_ok_iff] at h
      obtain ⟨step, hstep, h⟩ := h
      cases step with
      | ready u => exact .ready hdashes hstep (reads_of_readFrom h)
      | done request =>
        cases h
        exact absurd rfl (ne_done_run_of_readArgument hstep)
      | needs option u =>
        cases arguments with
        | nil => cases h
        | cons value arguments =>
          obtain ⟨v, hset, h⟩ := Except.bind_eq_ok_iff.1 h
          exact .needs hdashes hstep hset (reads_of_readFrom h)

theorem Reads.readFrom {arguments : List String} {s t : Settings} (h : Reads s arguments t) :
    readFrom s arguments = .ok (.run t) := by
  induction h with
  | finish hne => exact finish_eq_run_iff.2 ⟨hne, rfl⟩
  | pieces hne => exact finish_eq_run_iff.2 ⟨hne, rfl⟩
  | ready hdashes hstep _ ih =>
    rw [readFrom.eq_3 _ _ _ hdashes, hstep]
    exact ih
  | needs hdashes hstep hset _ ih =>
    rw [readFrom.eq_3 _ _ _ hdashes, hstep]
    exact Except.bind_eq_ok_iff.2 ⟨_, rfl, Except.bind_eq_ok_iff.2 ⟨_, hset, ih⟩⟩

theorem pieces_foldl_addPiece (s : Settings) (pieces : List String) :
    (pieces.foldl Settings.addPiece s).pieces = s.pieces ++ pieces := by
  induction pieces generalizing s with
  | nil => simp
  | cons piece pieces ih => simp [ih, Settings.addPiece]

theorem foldl_addPiece_withTrees (s : Settings) (pieces : List String) :
    pieces.foldl Settings.addPiece s.withTrees = (pieces.foldl Settings.addPiece s).withTrees := by
  induction pieces generalizing s with
  | nil => rfl
  | cons piece pieces ih => exact ih (s.addPiece piece)

theorem showTrees_foldl_addPiece (s : Settings) (pieces : List String) :
    (pieces.foldl Settings.addPiece s).showTrees = s.showTrees := by
  induction pieces generalizing s with
  | nil => rfl
  | cons piece pieces ih => exact ih (s.addPiece piece)

@[simp] theorem inRole_nil (role : Role) : inRole role [] = [] := rfl

@[simp] theorem inRole_cons (role role' : Role) (text : String) (rs : List (Role × String)) :
    inRole role ((role', text) :: rs) =
      if role' = role then text :: inRole role rs else inRole role rs := by
  by_cases h : role' = role <;> simp [inRole, h]

@[simp] theorem inRole_piece_map (texts : List String) :
    inRole .piece (texts.map (Role.piece, ·)) = texts := by
  induction texts with
  | nil => rfl
  | cons text texts ih => simp [ih]

@[simp] theorem inRole_option_map (texts : List String) :
    inRole .option (texts.map (Role.piece, ·)) = [] := by
  induction texts with
  | nil => rfl
  | cons text texts ih => simp [ih]

@[simp] theorem roles_nil : roles [] = [] := rfl

@[simp] theorem roles_dashes (pieces : List String) :
    roles ("--" :: pieces) = pieces.map (.piece, ·) := rfl

theorem roles_piece {argument : String} (arguments : List String) (hdashes : argument ≠ "--")
    (hlook : looksLikePiece argument = true) :
    roles (argument :: arguments) = (.piece, argument) :: roles arguments := by
  simp [roles, rolesFrom, hdashes, hlook]

theorem roles_option {argument : String} (arguments : List String) (hdashes : argument ≠ "--")
    (hlook : looksLikePiece argument = false) (htakes : takesNext argument = false) :
    roles (argument :: arguments) = (.option, argument) :: roles arguments := by
  simp [roles, rolesFrom, hdashes, hlook, htakes]

theorem roles_option_value {argument : String} (value : String) (arguments : List String)
    (hdashes : argument ≠ "--") (hlook : looksLikePiece argument = false)
    (htakes : takesNext argument = true) :
    roles (argument :: value :: arguments) =
      (.option, argument) :: (.value, value) :: roles arguments := by
  simp [roles, rolesFrom, hdashes, hlook, htakes]

theorem Reads.eq {arguments : List String} {s t : Settings} (h : Reads s arguments t) :
    t.pieces = s.pieces ++ inRole .piece (roles arguments) ∧
      t.showTrees = (s.showTrees || asksForTrees arguments) := by
  induction h with
  | finish hne => simp [asksForTrees]
  | pieces hne => simp [asksForTrees, pieces_foldl_addPiece, showTrees_foldl_addPiece]
  | @ready s t u argument arguments hdashes hstep _ ih =>
    rw [ih.1, ih.2]
    cases hlook : looksLikePiece argument with
    | true =>
      rw [readArgument_of_piece hlook] at hstep
      cases hstep
      simp [asksForTrees, roles_piece arguments hdashes hlook, Settings.addPiece]
    | false =>
      obtain ⟨htakes, hleaves, -⟩ := ready_of_option hlook hstep
      simp [asksForTrees, roles_option arguments hdashes hlook htakes, hleaves.pieces,
        hleaves.showTrees, Bool.or_assoc]
  | @needs s t u v option argument value arguments hdashes hstep hset _ ih =>
    obtain ⟨hlook, htakes, hleaves, -⟩ := needs_of_readArgument hstep
    obtain ⟨hpieces, hshow, -⟩ := eq_of_set hset
    rw [ih.1, ih.2, hpieces, hshow]
    simp [asksForTrees, roles_option_value value arguments hdashes hlook htakes, hleaves.pieces,
      hleaves.showTrees, Bool.or_assoc]

theorem Reads.withTrees {arguments : List String} {s t : Settings} (h : Reads s arguments t)
    (ht : t.showTrees = false) : Reads s.withTrees arguments t.withTrees := by
  -- Trees turned on beforehand are in the way only of an option for them, and there is none.
  induction h with
  | finish hne => exact .finish hne
  | @pieces s pieces hne =>
    rw [← foldl_addPiece_withTrees]
    apply Reads.pieces
    rw [foldl_addPiece_withTrees]
    exact hne
  | @ready s t u argument arguments hdashes hstep hrest ih =>
    have hshow : t.showTrees = false := by
      rw [hrest.eq.2] at ht
      exact (Bool.or_eq_false_iff.1 ht).1
    cases hlook : looksLikePiece argument with
    | true =>
      rw [readArgument_of_piece hlook] at hstep
      cases hstep
      exact .ready hdashes (readArgument_of_piece hlook) (ih ht)
    | false => exact .ready hdashes ((ready_of_option hlook hstep).2.2 hshow) (ih ht)
  | @needs s t u v option argument value arguments hdashes hstep hset hrest ih =>
    obtain ⟨-, hshow, hset'⟩ := eq_of_set hset
    have hu : u.showTrees = false := by
      rw [hrest.eq.2] at ht
      exact (Bool.or_eq_false_iff.1 ht).1
    obtain ⟨-, -, -, hagain⟩ := needs_of_readArgument hstep
    exact .needs hdashes (hagain (hshow ▸ hu)) hset' (ih ht)

theorem eq_of_read {arguments : List String} {settings : Settings}
    (h : read arguments = .ok (.run settings)) :
    settings.expression = joinedExpression arguments ∧
      settings.showTrees = asksForTrees arguments := by
  obtain ⟨hpieces, hshow⟩ := (reads_of_readFrom h).eq
  constructor
  · rw [Settings.expression, joinedExpression, hpieces]
    rfl
  · rw [hshow]
    rfl

theorem read_trees_cons {arguments : List String} {settings : Settings}
    (h : read arguments = .ok (.run settings)) (hplain : asksForTrees arguments = false) :
    read ("-g" :: arguments) = .ok (.run settings.withTrees) := by
  have hshow : settings.showTrees = false := (eq_of_read h).2.trans hplain
  have hreads := (reads_of_readFrom h).withTrees hshow
  have hfirst : readArgument .initial "-g" = .ok (.ready Settings.initial.withTrees) := by
    have hchars : "-g".toList = ['-', 'g'] := by decide
    rw [readArgument_of_letters hchars (by decide) (by decide)]
    rfl
  exact (Reads.ready (by decide) hfirst hreads).readFrom

end Bracketing.CommandLine
