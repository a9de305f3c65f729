import Mathlib.Data.String.Basic
import TopicSpec.Log.Filter
import TopicSpec.Proofs.Config.Validation

/-! # The directives of a configuration

The filter takes its directives apart at the commas, and each of them at the equals sign. Levels
have neither, but nothing is asked of the names of modules: the general level and the pairs are
found again exactly if no name has a comma, and a name and its level exactly if the name has no
equals sign. -/

namespace TopicSpec
set_option autoImplicit false

/-! ## Splitting at a character -/

open String in
/-- Splitting goes on at a place with the characters of the present piece before it. -/
theorem splitOnAux_char (c : Char) (before piece rest : List Char) (pieces : List String) :
    splitOnAux (ofList (before ++ piece ++ rest)) (ofList [c]) ⟨utf8Len before⟩
        ⟨utf8Len before + utf8Len piece⟩ 0 pieces =
      pieces.reverse ++ (List.splitOnPPrepend (· == c) rest piece.reverse).map ofList := by
  induction rest generalizing before piece pieces with
  | nil =>
    have hEnd := atEnd_of_valid (before ++ piece) []
    rw [utf8Len_append] at hEnd
    rw [splitOnAux, if_pos (hEnd.mpr rfl)]
    simpa using extract_of_valid before piece []
  | cons head rest ih =>
    have hEnd := atEnd_of_valid (before ++ piece) (head :: rest)
    have hGet := get_of_valid (before ++ piece) (head :: rest)
    have hNext := next_of_valid (before ++ piece) head rest
    rw [utf8Len_append] at hEnd hGet hNext
    have hSeparator : Pos.Raw.get (ofList [c]) 0 = c := get_of_valid [] [c]
    have hBehind : Pos.Raw.next (ofList [c]) 0 = ⟨c.utf8Size⟩ := by
      simpa using next_of_valid [] c []
    have hOver : Pos.Raw.atEnd (ofList [c]) ⟨c.utf8Size⟩ = true := by
      simpa using (atEnd_of_valid [c] []).mpr rfl
    rw [splitOnAux, if_neg fun h => List.cons_ne_nil _ _ (hEnd.mp h), hGet, hNext, hSeparator,
      hBehind, List.headD_cons, List.splitOnPPrepend_cons_eq_if]
    by_cases hHead : (head == c) = true
    · -- the piece ends here, and the next one begins behind the character
      obtain rfl := eq_of_beq hHead
      have hBack : (⟨utf8Len before + utf8Len piece + head.utf8Size⟩ : Pos.Raw).unoffsetBy
          ⟨head.utf8Size⟩ = ⟨utf8Len before + utf8Len piece⟩ :=
        congrArg Pos.Raw.mk (Nat.add_sub_cancel ..)
      have hRest := ih (before ++ piece ++ [head]) [] (ofList piece :: pieces)
      rw [List.append_nil, List.append_assoc _ [head], List.singleton_append] at hRest
      rw [if_pos hHead, if_pos hHead]
      dsimp only
      rw [if_pos hOver, hBack, extract_of_valid before piece (head :: rest)]
      simpa [Nat.add_assoc] using hRest
    · have hStay : (⟨utf8Len before + utf8Len piece⟩ : Pos.Raw).unoffsetBy 0 =
          ⟨utf8Len before + utf8Len piece⟩ := rfl
      have hRest := ih before (piece ++ [head]) pieces
      rw [← List.append_assoc, List.append_assoc _ [head], List.singleton_append, utf8Len_append,
        ← Nat.add_assoc] at hRest
      rw [if_neg hHead, if_neg hHead, hStay, hNext]
      simpa using hRest

theorem splitOn_char (c : Char) (text : String) :
    text.splitOn (String.singleton c) = (text.toList.splitOn c).map String.ofList := by
  rw [String.splitOn, if_neg (by simp), List.splitOn_eq_splitOnP]
  simpa using splitOnAux_char c [] [] text.toList []

section
variable {c : Char} {chars : List Char} {text left right piece : String}

/-- No piece has the character it was split off at. -/
theorem not_mem_of_mem_splitOn {part : List Char} (h : part ∈ chars.splitOn c) : c ∉ part := by
  induction chars generalizing part with
  | nil => simp_all
  | cons head chars ih =>
    rw [List.splitOn_cons_eq_if_modifyHead] at h
    split at h
    case isTrue =>
      rcases List.mem_cons.mp h with rfl | hRest
      · exact List.not_mem_nil
      · exact ih hRest
    case isFalse hHead =>
      obtain ⟨first, others, hParts⟩ := List.exists_cons_of_ne_nil (List.splitOn_ne_nil c chars)
      rw [hParts, List.modifyHead_cons] at h
      rw [hParts] at ih
      rcases List.mem_cons.mp h with rfl | hRest
      · rw [List.mem_cons, not_or]
        exact ⟨fun hSame => hHead (beq_iff_eq.mpr hSame.symm), ih List.mem_cons_self⟩
      · exact ih (List.mem_cons_of_mem _ hRest)

theorem not_mem_of_mem_splitOn_char (h : piece ∈ text.splitOn (String.singleton c)) :
    c ∉ piece.toList := by
  rw [splitOn_char] at h
  obtain ⟨part, hPart, rfl⟩ := List.mem_map.mp h
  rw [String.toList_ofList]
  exact not_mem_of_mem_splitOn hPart

theorem splitOn_char_append :
    (left ++ String.singleton c ++ right).splitOn (String.singleton c) =
      left.splitOn (String.singleton c) ++ right.splitOn (String.singleton c) := by
  simp only [splitOn_char, ← List.map_append]
  rw [← List.splitOn_append_cons_self]
  simp

theorem splitOn_char_of_not_mem (h : c ∉ text.toList) :
    text.splitOn (String.singleton c) = [text] := by
  rw [splitOn_char, List.splitOn_eq_singleton h]
  simp

end

/-! ## Levels -/

/-- A level has neither of the characters that separate directives and their parts. -/
theorem Config.IsKnownLevel.not_mem_separators {level : String} (h : IsKnownLevel level) :
    ',' ∉ level.toList ∧ '=' ∉ level.toList := by
  obtain ⟨known, hKnown, hSame⟩ := h
  have hNone : ∀ known ∈ ConfigError.levels,
      ',' ∉ known.toList.map Char.toLower ∧ '=' ∉ known.toList.map Char.toLower := by
    decide +kernel
  have hLevel := hNone known hKnown
  rw [← hSame] at hLevel
  exact hLevel.imp (mt (List.mem_map_of_mem (f := Char.toLower)))
    (mt (List.mem_map_of_mem (f := Char.toLower)))

theorem Config.IsKnownLevel.ne_empty {level : String} (h : IsKnownLevel level) : level ≠ "" := by
  rintro rfl
  obtain ⟨known, hKnown, hSame⟩ := h
  have hEmpty : known.toList.map Char.toLower = [] := hSame.symm
  have hNone : ∀ known ∈ ConfigError.levels, known.toList.map Char.toLower ≠ [] := by
    decide +kernel
  exact hNone known hKnown hEmpty

namespace LoggingConfig

/-- The directives of the modules. -/
def overrides (logging : LoggingConfig) : List String :=
  logging.modules.entries.map fun (target, level) => target ++ "=" ++ level

/-- No name of a module has a comma. -/
def CommaFree (logging : LoggingConfig) : Prop :=
  ∀ entry ∈ logging.modules.entries, ',' ∉ entry.1.toList

/-- All levels are known. -/
structure Leveled (logging : LoggingConfig) : Prop where
  level : Config.IsKnownLevel logging.level
  modules : ∀ entry ∈ logging.modules.entries, Config.IsKnownLevel entry.2

/-! ## Single directives -/

section
variable {target target' level level' : String}

theorem splitOn_override (hLevel : Config.IsKnownLevel level) :
    (target ++ "=" ++ level).splitOn "=" = target.splitOn "=" ++ [level] := by
  have hSplit : (target ++ "=" ++ level).splitOn "=" = target.splitOn "=" ++ level.splitOn "=" :=
    splitOn_char_append (c := '=')
  have hLast : level.splitOn "=" = [level] :=
    splitOn_char_of_not_mem (c := '=') hLevel.not_mem_separators.2
  rw [hSplit, hLast]

theorem splitOn_override_iff (hLevel : Config.IsKnownLevel level) :
    (target ++ "=" ++ level).splitOn "=" = [target, level] ↔ '=' ∉ target.toList := by
  rw [splitOn_override hLevel]
  constructor
  · intro h
    have hTarget : target.splitOn "=" = [target] := List.append_cancel_right h
    exact not_mem_of_mem_splitOn_char (c := '=') (hTarget ▸ List.mem_singleton_self target)
  · intro h
    exact congrArg (· ++ [level]) (splitOn_char_of_not_mem (c := '=') h)

/-- The level is what stands behind the last equals sign. -/
theorem override_inj (hLevel : Config.IsKnownLevel level) (hLevel' : Config.IsKnownLevel level')
    (h : target ++ "=" ++ level = target' ++ "=" ++ level') : target = target' ∧ level = level' := by
  have hSplit := congrArg (String.splitOn · "=") h
  simp only [splitOn_override hLevel, splitOn_override hLevel'] at hSplit
  obtain ⟨-, hLast⟩ := List.append_inj' hSplit rfl
  obtain rfl : level = level' := List.singleton_inj.mp hLast
  rw [String.append_assoc, String.append_assoc] at h
  exact ⟨String.append_left_inj _ |>.mp h, rfl⟩

theorem comma_mem_override_iff (hLevel : Config.IsKnownLevel level) :
    ',' ∈ (target ++ "=" ++ level).toList ↔ ',' ∈ target.toList := by
  simp [hLevel.not_mem_separators.1]

end

/-! ## All directives -/

theorem splitOn_directives (logging : LoggingConfig) :
    logging.directives.splitOn "," =
      logging.level.splitOn "," ++ logging.overrides.flatMap (·.splitOn ",") := by
  have hFold : ∀ (entries : List (String × String)) (text : String),
      (entries.foldl (fun text (target, level) => text ++ "," ++ target ++ "=" ++ level)
          text).splitOn "," =
        text.splitOn "," ++
          (entries.map fun (target, level) => target ++ "=" ++ level).flatMap (·.splitOn ",") := by
    intro entries
    induction entries with
    | nil => exact fun text => (List.append_nil _).symm
    | cons entry entries ih =>
      obtain ⟨target, level⟩ := entry
      intro text
      have hSplit : (text ++ "," ++ (target ++ "=" ++ level)).splitOn "," =
          text.splitOn "," ++ (target ++ "=" ++ level).splitOn "," :=
        splitOn_char_append (c := ',')
      rw [List.foldl_cons, ih, List.map_cons, List.flatMap_cons, ← List.append_assoc, ← hSplit]
      simp only [String.append_assoc]
  exact hFold logging.modules.entries logging.level

section
variable {logging logging' : LoggingConfig}

theorem Leveled.splitOn_directives (h : logging.Leveled) :
    logging.directives.splitOn "," =
      logging.level :: logging.overrides.flatMap (·.splitOn ",") := by
  have hLevel : logging.level.splitOn "," = [logging.level] :=
    splitOn_char_of_not_mem (c := ',') h.level.not_mem_separators.1
  rw [LoggingConfig.splitOn_directives, hLevel, List.singleton_append]

theorem Leveled.commaFree_iff (h : logging.Leveled) :
    logging.CommaFree ↔ ∀ directive ∈ logging.overrides, ',' ∉ directive.toList := by
  rw [CommaFree, overrides, List.forall_mem_map]
  exact forall₂_congr fun entry hEntry =>
    not_congr (comma_mem_override_iff (h.modules entry hEntry)).symm

theorem Leveled.splitOn_directives_iff (h : logging.Leveled) :
    logging.directives.splitOn "," = logging.level :: logging.overrides ↔ logging.CommaFree := by
  rw [h.commaFree_iff]
  constructor
  · intro hSplit directive hDirective
    exact not_mem_of_mem_splitOn_char (c := ',') (hSplit ▸ List.mem_cons_of_mem _ hDirective)
  · intro hFree
    rw [h.splitOn_directives]
    have hEach : ∀ directive ∈ logging.overrides, directive.splitOn "," = [directive] :=
      fun directive hDirective => splitOn_char_of_not_mem (c := ',') (hFree directive hDirective)
    rw [List.flatMap_congr hEach, List.flatMap_singleton']

/-- The filter leaves out what is empty, but no level and no pair is. -/
theorem Leveled.splitDirectives_iff (h : logging.Leveled) :
    Log.splitDirectives logging.directives = logging.level :: logging.overrides ↔
      logging.CommaFree := by
  constructor
  · intro hSplit
    rw [h.commaFree_iff]
    intro directive hDirective
    have hPiece : directive ∈ Log.splitDirectives logging.directives :=
      hSplit ▸ List.mem_cons_of_mem _ hDirective
    exact not_mem_of_mem_splitOn_char (c := ',') (List.mem_filter.mp hPiece).1
  · intro hFree
    rw [Log.splitDirectives, h.splitOn_directives_iff.mpr hFree, List.filter_eq_self]
    intro piece hPiece
    rw [bne_iff_ne]
    rcases List.mem_cons.mp hPiece with rfl | hOverride
    · exact h.level.ne_empty
    · obtain ⟨⟨target, level⟩, -, rfl⟩ := List.mem_map.mp hOverride
      intro hEmpty
      simpa using congrArg String.toList hEmpty

theorem entries_of_overrides {entries entries' : List (String × String)}
    (h : ∀ entry ∈ entries, Config.IsKnownLevel entry.2)
    (h' : ∀ entry ∈ entries', Config.IsKnownLevel entry.2)
    (hSame : (entries.map fun (target, level) => target ++ "=" ++ level) =
      entries'.map fun (target, level) => target ++ "=" ++ level) :
    entries = entries' := by
  induction entries generalizing entries' with
  | nil => exact (List.map_eq_nil_iff.mp hSame.symm).symm
  | cons entry entries ih =>
    obtain ⟨entry', entries', rfl, hHead, hTail⟩ := List.map_eq_cons_iff.mp hSame.symm
    rw [List.forall_mem_cons] at h h'
    obtain ⟨hTarget, hLevel⟩ := override_inj h'.1 h.1 hHead
    rw [ih h.2 h'.2 hTail.symm, Prod.ext hTarget hLevel]

/-- What is told to the filter determines the levels. -/
theorem Leveled.eq_of_directives (h : logging.Leveled) (h' : logging'.Leveled)
    (hFree : logging.CommaFree) (hFree' : logging'.CommaFree)
    (hSame : logging.directives = logging'.directives) :
    logging.level = logging'.level ∧ logging.modules = logging'.modules := by
  have hSplit := h.splitOn_directives_iff.mpr hFree
  rw [hSame, h'.splitOn_directives_iff.mpr hFree'] at hSplit
  obtain ⟨hLevel, hOverrides⟩ := List.cons.inj hSplit
  have hEntries := entries_of_overrides h'.modules h.modules hOverrides
  refine ⟨hLevel.symm, SortedMap.ext_find? fun key => ?_⟩
  rw [SortedMap.find?, SortedMap.find?, hEntries]

end
end LoggingConfig

/-! ## Accepted configurations -/

namespace Config

variable {draft : Draft} {config : Config}

theorem leveled_of_ofDraft (h : ofDraft draft = .ok config) : config.logging.Leveled := by
  have hValid : draft.Valid := ofDraft_eq_ok_iff.mp ⟨config, h⟩
  rw [(parts_of_ofDraft h).2.1]
  exact ⟨hValid.level, fun entry hEntry =>
    hValid.modules entry.1 entry.2 (SortedMap.find?_eq_some_iff.mpr hEntry)⟩

/-- The directives of an accepted configuration are the general level and then, in the order of the
names, the pairs of its modules, each taken apart again at the commas of its name. So they are the
level and the pairs exactly if no name has a comma, a pair is a name and a level exactly if its name
has no equals sign, and the directives of configurations without such commas tell them apart. -/
theorem directives_tell_levels (h : ofDraft draft = .ok config) :
    (config.logging.directives.splitOn "," =
      config.logging.level :: config.logging.overrides.flatMap (·.splitOn ",")) ∧
    (config.logging.directives.splitOn "," = config.logging.level :: config.logging.overrides ↔
      config.logging.CommaFree) ∧
    (Log.splitDirectives config.logging.directives =
      config.logging.level :: config.logging.overrides ↔ config.logging.CommaFree) ∧
    (∀ entry ∈ config.logging.modules.entries,
      (entry.1 ++ "=" ++ entry.2).splitOn "=" = [entry.1, entry.2] ↔ '=' ∉ entry.1.toList) ∧
    (config.logging.CommaFree → ∀ draft' config', ofDraft draft' = .ok config' →
      config'.logging.CommaFree → config.logging.directives = config'.logging.directives →
      config.logging.level = config'.logging.level ∧
        config.logging.modules = config'.logging.modules) := by
  have hLeveled := leveled_of_ofDraft h
  refine ⟨hLeveled.splitOn_directives, hLeveled.splitOn_directives_iff,
    hLeveled.splitDirectives_iff, fun entry hEntry => ?_, ?_⟩
  · exact LoggingConfig.splitOn_override_iff (hLeveled.modules entry hEntry)
  · exact fun hFree _ _ h' hFree' hSame =>
      hLeveled.eq_of_directives (leveled_of_ofDraft h') hFree hFree' hSame

/-- A document that gives levels to modules. -/
def overriding (modules : SortedMap String) : Draft :=
  ⟨.failFast, { LoggingConfig.standard with modules := modules }, .empty, [], []⟩

/-- One name with a comma has the directives of two modules. -/
example : (overriding (.insert .empty "a=debug,b" "info")).logging.directives =
    (overriding (.insert (.insert .empty "a" "debug") "b" "info")).logging.directives := by decide

theorem comma_in_name_adds_directive : ∃ config,
    ofDraft (overriding (.insert .empty "off,hpl_lang" "debug")) = .ok config ∧
      config.logging.directives.splitOn "," = ["info", "off", "hpl_lang=debug"] := by
  obtain ⟨config, hConfig⟩ :
      ∃ config, ofDraft (overriding (.insert .empty "off,hpl_lang" "debug")) = .ok config :=
    ⟨_, rfl⟩
  refine ⟨config, hConfig, ?_⟩
  rw [(directives_tell_levels hConfig).1, (parts_of_ofDraft hConfig).2.1]
  have hSplit : "off,hpl_lang=debug".splitOn "," = ["off", "hpl_lang=debug"] :=
    (splitOn_char ',' _).trans (by decide +kernel)
  exact congrArg (fun pieces => "info" :: (pieces ++ [])) hSplit

end Config
end TopicSpec
