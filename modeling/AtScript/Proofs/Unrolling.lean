import AtScript.Proofs.Context

/-! # Loops and their unrolling

A loop that succeeds does what the copies of its body do, one for each of its values, when they
stand in its place as one flat list of tokens.
-/

namespace AtScript.Exec

open Nesting

variable {S : Type} [Store S]

/-- Finding out the values of a loop changes nothing. -/
theorem loopRuns_of_loopValues {family : LoopFamily} {span : Span} {arguments : List String}
    {frame after : Frame S} {name : String} {values : List String}
    (hvalues : loopValues family span arguments frame = .ok (name, values) after) :
    after = frame ∧ LoopRuns frame.engine.store family arguments name values := by
  unfold loopValues at hvalues
  split at hvalues
  next name low high =>
    obtain ⟨first, _, hlow, hsecond⟩ := bind_eq_ok_iff.mp hvalues
    obtain ⟨last, _, hhigh, hpair⟩ := bind_eq_ok_iff.mp hsecond
    obtain ⟨hfirst, rfl⟩ := ofValue_eq_ok_iff.mp hlow
    obtain ⟨hlast, rfl⟩ := ofValue_eq_ok_iff.mp hhigh
    cases hpair
    rw [integersFrom_eq]
    exact ⟨rfl, .range hfirst hlast (integersBetween_pairwise first last)
      fun _ => mem_integersBetween⟩
  next name start =>
    cases hvalues
    exact ⟨rfl, .keys⟩
  next name start ending =>
    cases hvalues
    exact ⟨rfl, .keysBetween⟩
  next name list =>
    obtain ⟨current, _, hcurrent, hread⟩ := bind_eq_ok_iff.mp hvalues
    cases hcurrent
    obtain ⟨texts, _, hdecode, hpair⟩ := bind_eq_ok_iff.mp hread
    obtain ⟨htexts, rfl⟩ := ofValue_eq_ok_iff.mp hdecode
    cases hpair
    exact ⟨rfl, .items htexts⟩
  next => cases hvalues

/-- The iterations of a loop are the copies of its body, one after the other. -/
theorem sequenceAll_unrolled {fuel : Nat} {name : String} {body : List Token} {values : List String}
    {frame after : Frame S} (hloop : forEach (command fuel) name body values frame = .ok () after)
    (rest : List Token) :
    sequenceAll (command (fuel + 1)) (values.flatMap (substitute name · body) ++ rest) frame =
      sequenceAll (command (fuel + 1)) rest after := by
  induction values generalizing frame with
  | nil =>
      cases hloop
      rfl
  | cons value values ih =>
      obtain ⟨_, middle, hfirst, hothers⟩ := bind_eq_ok_iff.mp hloop
      -- Inside the loop a copy has one unit of fuel less than in the flat list.
      rw [List.flatMap_cons, List.append_assoc, sequenceAll_append (sequenceAll_ok_succ hfirst),
        ih hothers]

/-- The parts of a loop that succeeds. -/
theorem loop_eq_ok {fuel : Nat} {run : Runner S} {family : LoopFamily} {header : Token}
    {tail after remaining : List Token} {values : List String} {frame middle finished : Frame S}
    (harguments : arguments fuel run header tail frame = .ok (values, after) middle)
    (hloop : loop fuel run family header tail frame = .ok remaining finished) :
    ∃ body name texts, loopBody? family after = some (body, remaining) ∧
      LoopRuns middle.engine.store family values name texts ∧
      forEach run name body texts middle = .ok () finished := by
  obtain ⟨_, _, hsame, hloop⟩ := bind_eq_ok_iff.mp hloop
  rw [harguments] at hsame
  cases hsame
  obtain ⟨_, _, harity, hloop⟩ := bind_eq_ok_iff.mp hloop
  rw [checkArity] at harity
  split at harity
  next =>
    cases harity
    cases hbody : loopBody? family after with
    | none =>
        simp only [hbody] at hloop
        cases hloop
    | some parts =>
        simp only [hbody] at hloop
        obtain ⟨_, _, hiterate, hloop⟩ := bind_eq_ok_iff.mp hloop
        cases hloop
        rw [iterate_eq] at hiterate
        obtain ⟨⟨name, texts⟩, _, htexts, hiterations⟩ := bind_eq_ok_iff.mp hiterate
        obtain ⟨rfl, hruns⟩ := loopRuns_of_loopValues htexts
        exact ⟨parts.1, name, texts, rfl, hruns, hiterations⟩
  next => cases harity

/-- A loop whose arguments evaluate to `values`, leaving the tokens `after` and the frame `middle`,
has a body that ends at the matching end of its family. If the loop succeeds, running it and all
that follows is running the copies of the body, one for each value, and then the rest, from the
frame `middle`. -/
theorem run_loop_eq_run_unrolled {fuel : Nat} {family : LoopFamily} {header : Token}
    {tail after remaining : List Token} {values : List String} {frame middle finished : Frame S}
    (hheader : Keyword.ofToken? header = some (.loop family))
    (harguments : arguments fuel (command fuel) header tail frame = .ok (values, after) middle)
    (hloop : command (fuel + 1) (header :: tail) frame = .ok remaining finished) :
    ∃ body last name texts, after = body ++ last :: remaining ∧
      Keyword.ofToken? last = some (.endLoop family) ∧
      Balanced (.loop family) (.endLoop family) 0 body ∧
      LoopRuns middle.engine.store family values name texts ∧
      sequenceAll (command (fuel + 1)) (header :: tail) frame =
        sequenceAll (command (fuel + 1))
          (texts.flatMap (substitute name · body) ++ remaining) middle := by
  have hrole := Token.role_eq_keyword_iff.mpr hheader
  have hloop' : loop fuel (command fuel) family header tail frame = .ok remaining finished := by
    rw [← hloop]
    simp only [command, commandWith, hrole]
  obtain ⟨body, name, texts, hbody, hruns, hiterations⟩ := loop_eq_ok harguments hloop'
  obtain ⟨last, hafter, hlast, hbalanced⟩ :=
    (splitAtClose_eq_some_iff (loop_ne_endLoop family)).mp hbody
  refine ⟨body, last, name, texts, hafter, hlast, hbalanced, hruns, ?_⟩
  rw [sequenceAll_of_command (command_advances _) hloop, sequenceAll_unrolled hiterations]

/-- The tokens of `@for(i,1,2) @for(j,3,3) $i$j @endfor @endfor x` after the first header. -/
def sampleLoop : List Token :=
  [⟨.word, "i", ⟨5, 1⟩⟩, ⟨.comma, ",", ⟨6, 1⟩⟩, ⟨.word, "1", ⟨7, 1⟩⟩, ⟨.comma, ",", ⟨8, 1⟩⟩,
   ⟨.word, "2", ⟨9, 1⟩⟩, ⟨.close, ")", ⟨10, 1⟩⟩, ⟨.call, "@for(", ⟨12, 5⟩⟩, ⟨.word, "j", ⟨17, 1⟩⟩,
   ⟨.comma, ",", ⟨18, 1⟩⟩, ⟨.word, "3", ⟨19, 1⟩⟩, ⟨.comma, ",", ⟨20, 1⟩⟩, ⟨.word, "3", ⟨21, 1⟩⟩,
   ⟨.close, ")", ⟨22, 1⟩⟩, ⟨.word, "$i$j", ⟨24, 4⟩⟩, ⟨.word, "@endfor", ⟨29, 7⟩⟩,
   ⟨.word, "@endfor", ⟨37, 7⟩⟩, ⟨.word, "x", ⟨45, 1⟩⟩]

/-- The outer loop goes twice through its body, which ends at the second end. -/
theorem run_sampleLoop :
    command 9 (⟨.call, "@for(", ⟨0, 5⟩⟩ :: sampleLoop) .initial =
        .ok [⟨.word, "x", ⟨45, 1⟩⟩] (Frame.initial.write "1323") ∧
      ∃ body last name texts, sampleLoop.drop 6 = body ++ last :: [⟨.word, "x", ⟨45, 1⟩⟩] ∧
        Keyword.ofToken? last = some (.endLoop .range) ∧
        Balanced (.loop .range) (.endLoop .range) 0 body ∧
        LoopRuns Frame.initial.engine.store .range ["i", "1", "2"] name texts ∧
        sequenceAll (command 9) (⟨.call, "@for(", ⟨0, 5⟩⟩ :: sampleLoop) .initial =
          sequenceAll (command 9)
            (texts.flatMap (substitute name · body) ++ [⟨.word, "x", ⟨45, 1⟩⟩]) .initial := by
  have hloop : command 9 (⟨.call, "@for(", ⟨0, 5⟩⟩ :: sampleLoop) .initial =
      .ok [⟨.word, "x", ⟨45, 1⟩⟩] (Frame.initial.write "1323") := by with_unfolding_all rfl
  exact ⟨hloop, run_loop_eq_run_unrolled (by decide +kernel) (by with_unfolding_all rfl) hloop⟩

end AtScript.Exec
