import Mathlib.Data.List.Perm.Basic
import MessageFormat.CommandLine

/-!
# Writing commands as arguments

A command is written as its name and one group of arguments for each of its flags: the flag and
its value, or the flag alone if it is one that is set or not.  The groups may stand in any order,
since they act on different parts of the request (`command_flatten`), and `--config` and its path
are a group of their own that may stand anywhere between them.

What is written so is read back, unless one of the values is itself `--config`
(`parse_groups_iff`).  The configuration is taken out before anything is known about flags and
values, so such a value is taken for the flag.  No other value is mistaken, whatever it looks
like; and no arguments at all are read as a command with the value `--config`
(`not_mem_values_of_parse`), since all readers of flags take their values from the arguments
(`ReadsGroups.values_subset`).
-/

namespace MessageFormat

namespace Command

/-- The word for a command. -/
def word : Command → String
  | .parse _ => "parse"
  | .validate _ => "validate"
  | .kind _ => "kind"
  | .displayName _ => "display-name"

/-- The group of a flag without a value, which is written only if it is set. -/
def switch (flag : String) (isSet : Bool) : List (List String) :=
  if isSet then [[flag]] else []

/-- The arguments of a command, one group for each flag. -/
def groups : Command → List (List String)
  | .parse request =>
    ["--message", request.message] ::
      (switch "--ignore-tag" request.ignoreTag ++ switch "--no-location" request.omitSpans)
  | .validate request => [["--source", request.source]]
  | .kind request => [["--value", request.value]]
  | .displayName request =>
    ["--type", Named.name request.kind] :: ["--code", request.code] ::
      (request.locale.toList.map (fun locale => ["--locale", locale]) ++
        switch "--no-fallback" request.noFallback)

/-- The values of a command that may be any text. -/
def values : Command → List String
  | .parse request => [request.message]
  | .validate request => [request.source]
  | .kind request => [request.value]
  | .displayName request => request.code :: request.locale.toList

@[simp] theorem mem_switch {flag : String} {isSet : Bool} {group : List String} :
    group ∈ switch flag isSet ↔ isSet = true ∧ group = [flag] := by
  cases isSet with
  | false => simp [switch]
  | true => simp [switch]

@[simp] theorem flatten_switch (flag : String) (isSet : Bool) :
    (switch flag isSet).flatten = if isSet then [flag] else [] := by
  cases isSet with
  | false => rfl
  | true => rfl

theorem name_ne_config (kind : CodeKind) : Named.name kind ≠ "--config" := by
  cases kind
  all_goals decide

/-- Nothing but a value can be `--config`. -/
theorem mem_flatten_groups (c : Command) :
    "--config" ∈ c.groups.flatten ↔ "--config" ∈ c.values := by
  cases c with
  | parse request => simp [groups, values]
  | validate request => simp [groups, values]
  | kind request => simp [groups, values]
  | displayName request =>
    have hkind := (name_ne_config request.kind).symm
    cases hlocale : request.locale with
    | none => simp [groups, values, hkind, hlocale]
    | some locale => simp [groups, values, hkind, hlocale]

end Command

namespace CommandLine

/-! ## The configuration -/

theorem takeConfig_of_not_mem {path : String} {args : List String} (h : "--config" ∉ args) :
    takeConfig path args = .ok (path, args) := by
  fun_induction takeConfig path args with
  | case1 => rfl
  | case2 => simp at h
  | case3 => simp at h
  | case4 path arg value rest _ ih =>
    rw [ih fun hmem => h (List.mem_cons_of_mem arg hmem)]
    rfl
  | case5 => rfl

/-- The first `--config` is a flag, and what follows it is the path. -/
theorem takeConfig_append {start path : String} {before after : List String}
    (hbefore : "--config" ∉ before) (hafter : "--config" ∉ after) :
    takeConfig start (before ++ "--config" :: path :: after) = .ok (path, before ++ after) := by
  induction before with
  | nil =>
    rw [List.nil_append, takeConfig, if_pos rfl]
    exact takeConfig_of_not_mem hafter
  | cons arg before ih =>
    rw [List.mem_cons, not_or] at hbefore
    have hrest := ih hbefore.2
    obtain ⟨next, rest, hnext⟩ : ∃ next rest,
        before ++ "--config" :: path :: after = next :: rest :=
      List.exists_cons_of_ne_nil (by simp)
    rw [hnext] at hrest
    rw [List.cons_append, hnext, takeConfig, if_neg (Ne.symm hbefore.1), hrest]
    rfl

/-- Every `--config` is taken out. -/
theorem not_mem_of_takeConfig {start path : String} {args rest : List String}
    (h : takeConfig start args = .ok (path, rest)) : "--config" ∉ rest := by
  fun_induction takeConfig start args generalizing path rest with
  | case1 =>
    cases h
    simp
  | case2 => cases h
  | case3 _ _ _ ih => exact ih h
  | case4 start arg value args harg ih =>
    cases htail : takeConfig start (value :: args) with
    | error fault =>
      rw [htail] at h
      cases h
    | ok result =>
      rw [htail] at h
      cases h
      rw [List.mem_cons, not_or]
      exact ⟨Ne.symm harg, ih htail⟩
  | case5 start arg hne =>
    cases h
    simpa using fun harg : "--config" = arg => hne (harg ▸ rfl)

/-! ## Flags in any order -/

/-- Groups may be read in any order if each of them, wherever it stands, changes what is known so
far and nothing else, and any two of them may be exchanged. -/
theorem read_flatten_perm {σ ρ : Type} (read : σ → List String → ρ)
    {groups groups' : List (List String)} (hperm : groups.Perm groups')
    (hstep : ∀ group ∈ groups, ∀ s, ∃ s', ∀ rest, read s (group ++ rest) = read s' rest)
    (hswap : ∀ group ∈ groups, ∀ group' ∈ groups, ∀ s rest,
      read s (group ++ (group' ++ rest)) = read s (group' ++ (group ++ rest))) (s : σ) :
    read s groups.flatten = read s groups'.flatten := by
  induction hperm generalizing s with
  | nil => rfl
  | cons group _ ih =>
    rw [List.forall_mem_cons] at hstep
    obtain ⟨s', hs'⟩ := hstep.1 s
    rw [List.flatten_cons, List.flatten_cons, hs', hs']
    apply ih hstep.2
    exact fun g hg g' hg' => hswap g (List.mem_cons_of_mem group hg) g'
      (List.mem_cons_of_mem group hg')
  | swap group group' groups => exact hswap group' (by simp) group (by simp) s groups.flatten
  | trans hperm _ ih ih' =>
    rw [ih hstep hswap]
    apply ih'
    · exact fun g hg => hstep g (hperm.mem_iff.2 hg)
    · exact fun g hg g' hg' => hswap g (hperm.mem_iff.2 hg) g' (hperm.mem_iff.2 hg')

theorem ofName?_name (kind : CodeKind) : Named.ofName? (Named.name kind) = some kind := by
  cases kind
  all_goals decide

theorem parseFlags_flatten {request : Command.ParseRequest} {groups : List (List String)}
    (h : groups.Perm (Command.parse request).groups) :
    parseFlags none false false groups.flatten = .ok request := by
  have hgroups : ∀ group ∈ (Command.parse request).groups,
      group = ["--message", request.message] ∨ group = ["--ignore-tag"] ∨
        group = ["--no-location"] := by
    simp only [Command.groups, List.mem_cons, List.mem_append, Command.mem_switch]
    exact fun group => Or.imp_right (Or.imp And.right And.right)
  have horder := read_flatten_perm (fun s : Option String × Bool × Bool =>
    parseFlags s.1 s.2.1 s.2.2) h.symm ?_ ?_ (none, false, false)
  · rw [← horder]
    obtain ⟨message, ignoreTag, omitSpans⟩ := request
    cases ignoreTag
    all_goals
      cases omitSpans
      all_goals simp [Command.groups, parseFlags]
  · intro group hgroup ⟨message, ignoreTag, omitSpans⟩
    rcases hgroups group hgroup with rfl | rfl | rfl
    · exact ⟨(some request.message, ignoreTag, omitSpans), fun rest => by simp [parseFlags]⟩
    · exact ⟨(message, true, omitSpans), fun rest => by simp [parseFlags]⟩
    · exact ⟨(message, ignoreTag, true), fun rest => by simp [parseFlags]⟩
  · intro group hgroup group' hgroup' s rest
    rcases hgroups group hgroup with rfl | rfl | rfl
    all_goals
      rcases hgroups group' hgroup' with rfl | rfl | rfl
      all_goals simp [parseFlags]

theorem displayNameFlags_flatten {request : Command.DisplayNameRequest}
    {groups : List (List String)} (h : groups.Perm (Command.displayName request).groups) :
    displayNameFlags none none none false groups.flatten = .ok request := by
  obtain ⟨code, kind, locale, noFallback⟩ := request
  have hkind := ofName?_name kind
  have hgroups : ∀ group ∈ (Command.displayName ⟨code, kind, locale, noFallback⟩).groups,
      group = ["--type", Named.name kind] ∨ group = ["--code", code] ∨
        (∃ value, locale = some value ∧ ["--locale", value] = group) ∨
        group = ["--no-fallback"] := by
    simp only [Command.groups, List.mem_cons, List.mem_append, List.mem_map, Option.mem_toList,
      Command.mem_switch]
    exact fun group => Or.imp_right (Or.imp_right (Or.imp_right And.right))
  have horder := read_flatten_perm
    (fun s : Option String × Option CodeKind × Option String × Bool =>
      displayNameFlags s.1 s.2.1 s.2.2.1 s.2.2.2) h.symm ?_ ?_ (none, none, none, false)
  · rw [← horder]
    cases locale
    all_goals
      cases noFallback
      all_goals simp [Command.groups, displayNameFlags, hkind]
  · intro group hgroup ⟨code', kind', locale', noFallback'⟩
    rcases hgroups group hgroup with rfl | rfl | ⟨value, -, rfl⟩ | rfl
    · exact ⟨(code', some kind, locale', noFallback'), fun rest => by
        simp [displayNameFlags, hkind]⟩
    · exact ⟨(some code, kind', locale', noFallback'), fun rest => by simp [displayNameFlags]⟩
    · exact ⟨(code', kind', some value, noFallback'), fun rest => by simp [displayNameFlags]⟩
    · exact ⟨(code', kind', locale', true), fun rest => by simp [displayNameFlags]⟩
  · intro group hgroup group' hgroup' s rest
    rcases hgroups group hgroup with rfl | rfl | ⟨value, rfl, rfl⟩ | rfl
    all_goals
      rcases hgroups group' hgroup' with rfl | rfl | ⟨value', ⟨⟩, rfl⟩ | rfl
      all_goals simp [displayNameFlags, hkind]

/-- The flags of a command are read back in whatever order they are written. -/
theorem command_flatten {c : Command} {groups : List (List String)}
    (h : groups.Perm c.groups) : command c.word groups.flatten = .ok c := by
  cases c with
  | parse request =>
    rw [Command.word, command, parseFlags_flatten h]
    rfl
  | validate request =>
    rw [Command.groups, List.perm_singleton] at h
    simp [h, Command.word, command, validateFlags, onlyFlag]
  | kind request =>
    rw [Command.groups, List.perm_singleton] at h
    simp [h, Command.word, command, kindFlags, onlyFlag]
  | displayName request =>
    rw [Command.word, command, displayNameFlags_flatten h]
    rfl

/-! ## Values -/

/-- A reader that takes a flag and the arguments that belong to it at each step, remembers no
others, and gives no values in the end but those it remembers. -/
structure ReadsGroups {σ ρ : Type} (read : σ → List String → Except Fault ρ)
    (known : σ → List String) (values : ρ → List String) : Prop where
  finish : ∀ s r, read s [] = .ok r → values r ⊆ known s
  step : ∀ s flag args r, read s (flag :: args) = .ok r →
    ∃ s' group rest, args = group ++ rest ∧ read s' rest = .ok r ∧ known s' ⊆ group ++ known s

/-- All values come from the arguments, or have been known before. -/
theorem ReadsGroups.values_subset {σ ρ : Type} {read : σ → List String → Except Fault ρ}
    {known : σ → List String} {values : ρ → List String} (hread : ReadsGroups read known values)
    {s : σ} {args : List String} {r : ρ} (h : read s args = .ok r) :
    values r ⊆ args ++ known s := by
  -- A step may take several arguments.
  induction hlength : args.length using Nat.strongRecOn generalizing s args with
  | ind length ih =>
    cases args with
    | nil => exact hread.finish s r h
    | cons flag args =>
      obtain ⟨s', group, rest, rfl, hrest, hknown⟩ := hread.step s flag args r h
      rw [List.length_cons, List.length_append] at hlength
      have hvalues := ih rest.length (by omega) hrest rfl
      intro value hvalue
      have hmem := hvalues hvalue
      have hmem' := @hknown value
      simp only [List.mem_append, List.mem_cons] at hmem hmem' ⊢
      tauto

theorem readsGroups_parseFlags :
    ReadsGroups (fun s : Option String × Bool × Bool => parseFlags s.1 s.2.1 s.2.2)
      (fun s => s.1.toList) fun request => (Command.parse request).values where
  finish := by
    rintro ⟨_ | message, ignoreTag, omitSpans⟩ request h
    · cases h
    · cases h
      exact fun _ => id
  step := by
    rintro ⟨message, ignoreTag, omitSpans⟩ flag args request h
    unfold parseFlags at h
    split at h
    · contradiction
    · next heq =>
      cases heq
      cases args with
      | nil => cases h
      | cons value rest =>
        exact ⟨(some value, ignoreTag, omitSpans), [value], rest, rfl, h, by simp⟩
    · next heq =>
      cases heq
      exact ⟨(message, true, omitSpans), [], args, rfl, h, by simp⟩
    · next heq =>
      cases heq
      exact ⟨(message, ignoreTag, true), [], args, rfl, h, by simp⟩
    · cases h

theorem readsGroups_onlyFlag (flag : String) :
    ReadsGroups (onlyFlag flag) Option.toList fun value => [value] where
  finish := by
    rintro (_ | value) value' h
    · cases h
    · cases h
      exact fun _ => id
  step := by
    intro s arg args value h
    unfold onlyFlag at h
    split at h
    · cases args with
      | nil => cases h
      | cons next rest => exact ⟨some next, [next], rest, rfl, h, by simp⟩
    · cases h

theorem readsGroups_displayNameFlags :
    ReadsGroups (fun s : Option String × Option CodeKind × Option String × Bool =>
        displayNameFlags s.1 s.2.1 s.2.2.1 s.2.2.2)
      (fun s => s.1.toList ++ s.2.2.1.toList) fun request =>
        (Command.displayName request).values where
  finish := by
    rintro ⟨_ | code, _ | kind, locale, noFallback⟩ request h
    · cases h
    · cases h
    · cases h
    · cases h
      exact fun _ => id
  step := by
    rintro ⟨code, kind, locale, noFallback⟩ flag args request h
    unfold displayNameFlags at h
    split at h
    · contradiction
    · next heq =>
      cases heq
      cases args with
      | nil => cases h
      | cons value rest =>
        exact ⟨(some value, kind, locale, noFallback), [value], rest, rfl, h, by simp⟩
    · next heq =>
      cases heq
      cases args with
      | nil => cases h
      | cons value rest =>
        dsimp only at h
        split at h
        · exact ⟨(code, some _, locale, noFallback), [value], rest, rfl, h, by simp⟩
        · cases h
    · next heq =>
      cases heq
      cases args with
      | nil => cases h
      | cons value rest =>
        exact ⟨(code, kind, some value, noFallback), [value], rest, rfl, h, by simp⟩
    · next heq =>
      cases heq
      exact ⟨(code, kind, locale, true), [], args, rfl, h, by simp⟩
    · cases h

section Outcomes

variable {ε α β : Type} {x : Except ε α} {b : β}

theorem exists_of_bind {f : α → Except ε β} (h : x >>= f = .ok b) :
    ∃ a, x = .ok a ∧ f a = .ok b := by
  cases x with
  | error fault => cases h
  | ok a => exact ⟨a, rfl, h⟩

theorem exists_of_map {f : α → β} (h : f <$> x = .ok b) : ∃ a, x = .ok a ∧ f a = b := by
  cases x with
  | error fault => cases h
  | ok a => exact ⟨a, rfl, Except.ok.inj h⟩

end Outcomes

/-- The values of a command come from its flags. -/
theorem values_subset_of_command {name : String} {flags : List String} {c : Command}
    (h : command name flags = .ok c) : c.values ⊆ flags := by
  unfold command at h
  split at h
  · obtain ⟨request, hrequest, rfl⟩ := exists_of_map h
    simpa using readsGroups_parseFlags.values_subset (s := (none, false, false)) hrequest
  · obtain ⟨request, hrequest, rfl⟩ := exists_of_map h
    obtain ⟨source, hsource, rfl⟩ := exists_of_map hrequest
    simpa [Command.values] using (readsGroups_onlyFlag "--source").values_subset hsource
  · obtain ⟨request, hrequest, rfl⟩ := exists_of_map h
    obtain ⟨value, hvalue, rfl⟩ := exists_of_map hrequest
    simpa [Command.values] using (readsGroups_onlyFlag "--value").values_subset hvalue
  · obtain ⟨request, hrequest, rfl⟩ := exists_of_map h
    simpa using
      readsGroups_displayNameFlags.values_subset (s := (none, none, none, false)) hrequest
  · cases h

/-- No arguments stand for a command with the value `--config`. -/
theorem not_mem_values_of_parse {args : List String} {c : Command} {path : String}
    (h : parse args = .ok (c, path)) : "--config" ∉ c.values := by
  cases args with
  | nil => cases h
  | cons name arguments =>
    obtain ⟨⟨path', flags⟩, hconfig, h⟩ := exists_of_bind h
    obtain ⟨c', hcommand, h⟩ := exists_of_bind h
    cases h
    intro hmem
    exact not_mem_of_takeConfig hconfig (values_subset_of_command hcommand hmem)

/-- A command and the path of its configuration, written in any order of the flags, are read back
exactly if none of the values of the command is `--config`. -/
theorem parse_groups_iff {c : Command} {path : String} {groups : List (List String)}
    (h : groups.Perm (["--config", path] :: c.groups)) :
    parse (c.word :: groups.flatten) = .ok (c, path) ↔ "--config" ∉ c.values := by
  refine ⟨not_mem_values_of_parse, ?_⟩
  intro hvalues
  obtain ⟨before, after, rfl⟩ := List.append_of_mem (h.mem_iff.2 List.mem_cons_self)
  have hperm : (before ++ after).Perm c.groups :=
    (List.perm_middle.symm.trans h).cons_inv
  have hnot : "--config" ∉ before.flatten ++ after.flatten := by
    rw [← List.flatten_append, List.mem_flatten]
    simpa [hperm.mem_iff, ← List.mem_flatten, c.mem_flatten_groups] using hvalues
  rw [List.mem_append, not_or] at hnot
  have hconfig : takeConfig Configuration.defaultPath
      (before ++ ["--config", path] :: after).flatten = .ok (path, (before ++ after).flatten) := by
    rw [List.flatten_append, List.flatten_cons, List.flatten_append]
    exact takeConfig_append hnot.1 hnot.2
  rw [parse, hconfig]
  show (do return (← command c.word (before ++ after).flatten, path)) = _
  rw [command_flatten hperm]
  rfl

/-- Values that look like flags, and a path that looks like its own flag. -/
theorem parse_groups_iff_flags :
    parse ["display-name", "--no-fallback", "--locale", "--code", "--config", "--config", "--code",
      "--type", "--type", "language"] =
      .ok (.displayName ⟨"--type", .language, some "--code", true⟩, "--config") := by
  have hperm : [["--no-fallback"], ["--locale", "--code"], ["--config", "--config"],
      ["--code", "--type"], ["--type", "language"]].Perm (["--config", "--config"] ::
        (Command.displayName ⟨"--type", .language, some "--code", true⟩).groups) := by decide
  exact (parse_groups_iff hperm).2 (by decide)

/-- The message is taken for the flag: its path is missing, or is the flag behind it. -/
theorem parse_groups_ne_of_config :
    [["--config", "x.toml"], ["--message", "--config"]].Perm
      (["--config", "x.toml"] :: (Command.parse ⟨"--config", false, false⟩).groups) ∧
    parse ["parse", "--config", "x.toml", "--message", "--config"] =
      .error (.missingValue "--config") ∧
    [["--message", "--config"], ["--config", "x.toml"]].Perm
      (["--config", "x.toml"] :: (Command.parse ⟨"--config", false, false⟩).groups) ∧
    parse ["parse", "--message", "--config", "--config", "x.toml"] =
      .ok (.parse ⟨"x.toml", false, false⟩, "--config") := by
  decide

end CommandLine

end MessageFormat
