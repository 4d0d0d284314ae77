import PublicAssembly.CommandLine.Plan
import PublicAssembly.Proofs.Output.Containment

/-!
# The suffix of a plan

The suffix for the names of copies comes from the command line, or else from the settings. Only the
command line is checked for separators. With a suffix that was checked, or that holds none, every
copy goes directly into its directory; with another one the copies go where the suffix leads.

## Main definitions

* `Plan.HoldsNoSeparator`: a suffix that is part of one name on every system;
* `Plan.SuffixFrom`: where the suffix of a plan comes from;
* `Plan.Contained`: which copies of a plan stay in their directories.

## Main statements

* `Plan.ofArguments_eq_ok_iff`: what it takes to make a plan;
* `Plan.ofArguments_suffixFrom`: which suffix a plan has, and where copies go with it.
-/

namespace PublicAssembly.Plan

open CommandLine (Arguments)
open OutputTarget (DirectChild batchDirectory requestedName? resolve)
open Reading

variable {files : FileTree} {arguments : Arguments} {plan : Plan}

/-- The suffix holds none of the separators of an output argument. -/
def HoldsNoSeparator (suffix : String) : Prop :=
  '/' ∉ suffix.toList ∧ '\\' ∉ suffix.toList

instance : DecidablePred HoldsNoSeparator := fun _ => inferInstanceAs (Decidable (_ ∧ _))

/-- The check of a suffix finds the separators. -/
theorem any_isSeparator_iff {suffix : String} :
    suffix.toList.any OutputRequest.isSeparator = true ↔ ¬ HoldsNoSeparator suffix := by
  rw [HoldsNoSeparator, List.any_eq_true, not_and_or, not_not, not_not]
  simp only [OutputRequest.isSeparator, Bool.or_eq_true, beq_iff_eq]
  constructor
  · rintro ⟨c, hc, rfl | rfl⟩
    · exact .inl hc
    · exact .inr hc
  · rintro (hc | hc)
    · exact ⟨'/', hc, .inl rfl⟩
    · exact ⟨'\\', hc, .inr rfl⟩

/-! ### Making a plan -/

/-- Settings take the suffix of the command line if it has one, and then it must pass the check. -/
theorem withSuffix_eq_ok_iff {settings given : Settings} {suffix : Option String} :
    withSuffix settings suffix = .ok given ↔
      (∀ text, suffix = some text → HoldsNoSeparator text) ∧
        given = { settings with output :=
          { settings.output with suffix := suffix.getD settings.output.suffix } } := by
  cases suffix with
  | none =>
    rw [withSuffix, Except.ok.injEq, eq_comm]
    exact (and_iff_right (by simp)).symm
  | some text =>
    rw [withSuffix, ite_error_eq_ok_iff, any_isSeparator_iff, not_not, Except.ok.injEq,
      @eq_comm _ _ given]
    simp only [Option.some.injEq, forall_eq', Option.getD_some]

/-- What it takes to make a plan. A suffix of the settings is not looked at. -/
theorem ofArguments_eq_ok_iff :
    ofArguments files arguments = .ok plan ↔
      ∃ inputs output found, inputsOf arguments = .ok inputs ∧
        outputOf files arguments = .ok output ∧
        Settings.find files arguments.config = .ok found ∧
        (∀ suffix, arguments.suffix = some suffix → HoldsNoSeparator suffix) ∧
        plan = {
          inputs
          output
          settings := withStripping { found with output := { found.output with
            suffix := arguments.suffix.getD found.output.suffix } } arguments.stripBodies
          report := arguments.report
          wait := arguments.wait } := by
  simp only [ofArguments, bind_eq_ok_iff, pure_eq_ok_iff, withSuffix_eq_ok_iff]
  constructor
  · rintro ⟨inputs, hinputs, output, houtput, found, hfound, given, ⟨hsuffix, rfl⟩, rfl⟩
    exact ⟨inputs, output, found, hinputs, houtput, hfound, hsuffix, rfl⟩
  · rintro ⟨inputs, output, found, hinputs, houtput, hfound, hsuffix, rfl⟩
    exact ⟨inputs, hinputs, output, houtput, found, hfound, _, ⟨hsuffix, rfl⟩, rfl⟩

/-- The request of a plan is one that can be asked for. -/
theorem asked_of_outputOf {output : Option OutputRequest}
    (h : outputOf files arguments = .ok output) : OutputRequest.Asked output := by
  rw [outputOf] at h
  split at h
  · cases h
    exact .none
  · split at h
    · next request hrequest =>
      cases h
      exact .parsed hrequest
    · cases h

/-! ### Where copies go -/

/-- Where the suffix of a plan comes from. -/
structure SuffixFrom (files : FileTree) (arguments : Arguments) (found : Settings) (plan : Plan) :
    Prop where
  /-- The settings are those of the file that is named, or of a usual one, or the default ones. -/
  find_eq : Settings.find files arguments.config = .ok found
  /-- A suffix of the command line stands before that of the settings. -/
  suffix_eq : plan.settings.output.suffix = arguments.suffix.getD found.output.suffix
  /-- The directory is that of the settings. -/
  directory_eq : plan.settings.output.directory = found.output.directory
  /-- A suffix of the command line has no separator. -/
  of_argument : ∀ suffix, arguments.suffix = some suffix → HoldsNoSeparator suffix
  /-- Nor has that of the default settings. -/
  of_default : arguments.config = none → Settings.usualPaths.find? files.hasEntry = none →
    HoldsNoSeparator found.output.suffix
  /-- That of a settings file may have one, and is the suffix of the plan unless the command line
  has another one. -/
  holdsNoSeparator_iff : HoldsNoSeparator plan.settings.output.suffix ↔
    arguments.suffix ≠ none ∨ HoldsNoSeparator found.output.suffix

/-- Which copies of a plan stay in their directories. -/
structure Contained (plan : Plan) : Prop where
  /-- The request of the plan is one that can be asked for. -/
  asked : OutputRequest.Asked plan.output
  /-- If the suffix does not separate names, the copy of every input that has a file name goes
  directly into its directory, whatever is asked for. -/
  exists_directChild : '/' ∉ plan.settings.output.suffix.toList →
    ∀ input name request, input.fileName? = some name → OutputRequest.Asked request →
      ∃ target, resolve plan.settings.output input request = .ok target ∧
        target.directory = batchDirectory plan.settings.output request ∧ DirectChild target
  /-- If it does, no copy does whose name is made with the suffix. -/
  directChild_iff : ∀ input request target, requestedName? request = none →
    resolve plan.settings.output input request = .ok target →
      (DirectChild target ↔ '/' ∉ plan.settings.output.suffix.toList)

/-- A plan has the suffix of the command line, which was checked for separators, or else that of the
settings, which was not. Copies go directly into their directories unless it separates names. -/
theorem ofArguments_suffixFrom (h : ofArguments files arguments = .ok plan) :
    ∃ found, SuffixFrom files arguments found plan ∧ Contained plan := by
  obtain ⟨inputs, output, found, -, houtput, hfound, hargument, rfl⟩ := ofArguments_eq_ok_iff.1 h
  refine ⟨found, ⟨hfound, rfl, rfl, hargument, ?_, ?_⟩, asked_of_outputOf houtput, ?_, ?_⟩
  · -- no settings file is there, so the suffix is the usual one
    intro hconfig hnone
    rw [hconfig, Settings.find, hnone] at hfound
    cases hfound
    decide
  · show HoldsNoSeparator (arguments.suffix.getD found.output.suffix) ↔ _
    cases hsuffix : arguments.suffix with
    | none => simp
    | some suffix => simp [hargument suffix hsuffix]
  · intro hplain input name request hinput hrequest
    exact OutputTarget.exists_resolve hplain hrequest hinput
  · intro input request target hname hresolve
    exact OutputTarget.directChild_iff_of_resolve hname hresolve

/-- A settings file with the suffix, next to the usual directory for copies and one in it. -/
def settingsFiles (suffix : String) : FileTree where
  entries := [
    (["p.toml"], .file ("[output]\nsuffix = \"" ++ suffix ++ "\"\n").toUTF8.data),
    (["publicized_assemblies"], .directory),
    (["publicized_assemblies", "Lib"], .directory)]

/-- The arguments that name an input and the settings file. -/
def settingsArguments : Arguments where
  inputs := [⟨"Lib.dll"⟩]
  config := some ⟨"p.toml"⟩

/-- With a suffix that separates no names the copy goes into the usual directory. -/
theorem ofArguments_suffixFrom_settingsFiles :
    ∃ plan target, ofArguments (settingsFiles "_open") settingsArguments = .ok plan ∧
      HoldsNoSeparator plan.settings.output.suffix ∧
      resolve plan.settings.output ⟨"Lib.dll"⟩ plan.output = .ok target ∧
      target.directory = ⟨"publicized_assemblies"⟩ ∧ DirectChild target := by
  have hsuffix : okAnd (fun plan => plan.settings.output == ⟨⟨"publicized_assemblies"⟩, "_open"⟩ &&
      plan.output.isNone) (ofArguments (settingsFiles "_open") settingsArguments) = true := by
    decide +kernel
  obtain ⟨plan, hplan, hsuffix⟩ := okAnd_eq_true_iff.1 hsuffix
  rw [Bool.and_eq_true, beq_iff_eq, Option.isNone_iff_eq_none] at hsuffix
  obtain ⟨found, -, hcontained⟩ := ofArguments_suffixFrom hplan
  obtain ⟨target, hresolve, hdirectory, hchild⟩ := hcontained.exists_directChild
    (by rw [hsuffix.1]; decide) ⟨"Lib.dll"⟩ "Lib.dll" plan.output (by decide +kernel) hcontained.asked
  refine ⟨plan, target, hplan, by rw [hsuffix.1]; decide, hresolve, ?_, hchild⟩
  rw [hdirectory, hsuffix.1, hsuffix.2]
  rfl

/-- A suffix of a settings file that leads out of the directory for copies is accepted, and the copy
is written next to the input. -/
theorem not_directChild_settingsFiles :
    ∃ plan target, ofArguments (settingsFiles "/../../Stray") settingsArguments = .ok plan ∧
      ¬ HoldsNoSeparator plan.settings.output.suffix ∧
      resolve plan.settings.output ⟨"Lib.dll"⟩ plan.output = .ok target ∧
      ¬ DirectChild target ∧
      (settingsFiles "/../../Stray").hasDirectory target.directory = true ∧
      (settingsFiles "/../../Stray").locate target.path = .ok ["Stray.dll"] := by
  -- one evaluation answers for the plan, the target and the place that it leads to
  have hrun : okAnd (fun plan =>
      !decide (HoldsNoSeparator plan.settings.output.suffix) &&
        okAnd (fun target => decide ('/' ∈ target.fileName.toList) &&
          ((settingsFiles "/../../Stray").hasDirectory target.directory &&
            decide ((settingsFiles "/../../Stray").locate target.path = .ok ["Stray.dll"])))
          (resolve plan.settings.output ⟨"Lib.dll"⟩ plan.output))
      (ofArguments (settingsFiles "/../../Stray") settingsArguments) = true := by
    decide +kernel
  obtain ⟨plan, hplan, hrest⟩ := okAnd_eq_true_iff.1 hrun
  rw [Bool.and_eq_true, Bool.not_eq_true', decide_eq_false_iff_not] at hrest
  obtain ⟨target, htarget, hleads⟩ := okAnd_eq_true_iff.1 hrest.2
  simp only [Bool.and_eq_true, decide_eq_true_eq] at hleads
  obtain ⟨hseparator, hdirectory, hlocate⟩ := hleads
  refine ⟨plan, target, hplan, hrest.1, htarget, ?_, hdirectory, hlocate⟩
  intro hchild
  exact hchild.plainName.no_separator hseparator

end PublicAssembly.Plan
