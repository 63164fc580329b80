import StorageScaleTest.Proof.Templates.Schedule

/-!
# What values begin with

No accepted value begins with the delimiter of the placeholders, and no token has one.
-/

namespace StorageScaleTest.Templates
open Shell Targets Markers

def Safe (check : Text → Bool) : Prop := ∀ value, check value = true → value.head? ≠ some '@'

/-! ## Values on one line -/

theorem safe_head {first : Char → Bool} (not_at : first '@' = false) :
    Safe fun value => value.head?.any first := by
  intro value (head : value.head?.any first) eq
  rw [eq, Option.any_some, not_at] at head
  cases head

theorem safe_all {other : Char → Bool} (not_at : other '@' = false) :
    Safe fun value => value.all other := by
  intro value (holds : value.all other)
  cases value with
  | nil => simp
  | cons c value =>
      rw [List.all_cons, Bool.and_eq_true] at holds
      exact safe_head not_at (c :: value) holds.1

theorem safe_begins {first rest : Char → Bool} (not_at : first '@' = false) :
    Safe (begins first rest) := by
  intro value holds
  cases value with
  | nil => cases holds
  | cons c value =>
      rw [begins, Bool.and_eq_true] at holds
      exact safe_head not_at (c :: value) holds.1

theorem Safe.and_left {check : Text → Bool} (other : Text → Bool) (safe : Safe check) :
    Safe fun value => check value && other value :=
  fun value holds => safe value (Bool.and_eq_true_iff.mp holds).1

theorem Safe.and_right {check : Text → Bool} (other : Text → Bool) (safe : Safe check) :
    Safe fun value => other value && check value :=
  fun value holds => safe value (Bool.and_eq_true_iff.mp holds).2

theorem safe_or {check check' : Text → Bool} (safe : Safe check) (safe' : Safe check') :
    Safe fun value => check value || check' value :=
  fun value holds => (Bool.or_eq_true_iff.mp holds).elim (safe value) (safe' value)

theorem safe_mem (values : List Text) (heads : ∀ value ∈ values, value.head? ≠ some '@') :
    Safe fun value => value ∈ values :=
  fun value holds => heads value (of_decide_eq_true holds)

theorem safe_label : Safe label :=
  ((safe_head rfl).and_left _).and_left _

theorem safe_namespace : Safe validateNamespaceName := safe_label.and_right _

theorem safe_subdomain : Safe subdomain :=
  ((safe_head rfl).and_left _).and_left _

theorem safe_dnsSubdomain : Safe validateDnsSubdomain := (safe_subdomain.and_right _).and_left _

theorem safe_hex (digits : Nat) : Safe (hex digits) := (safe_all rfl).and_right _

theorem safe_positive : Safe positive := safe_begins rfl

theorem safe_labelWord : Safe labelWord :=
  ((safe_head rfl).and_left _).and_left _

theorem safe_labelName : Safe validateLabelName := safe_labelWord.and_right _

theorem safe_labelValue : Safe validateLabelValue :=
  safe_or (fun value empty => by rw [of_decide_eq_true empty]; simp) (safe_labelWord.and_right _)

theorem head_splitOn {separator : Char} {value first : Text} {others : List Text}
    (parts : value.splitOn separator = first :: others) (safe : first.head? ≠ some '@')
    (not_at : separator ≠ '@') : value.head? ≠ some '@' := by
  have joined : [separator].intercalate (first :: others) = value :=
    parts ▸ List.intercalate_splitOn separator
  rw [← joined]
  cases others with
  | nil => simpa using safe
  | cons second others =>
      cases first with
      | nil => simpa [List.intercalate] using not_at
      | cons c first => simpa [List.intercalate] using safe

theorem safe_labelKey : Safe validateLabelKey := by
  intro key holds
  rw [validateLabelKey] at holds
  split at holds
  case h_1 name parts => exact head_splitOn parts (safe_labelName name holds) (by decide)
  case h_2 domain name parts =>
    exact head_splitOn parts (safe_dnsSubdomain domain (Bool.and_eq_true_iff.mp holds).1) (by decide)
  case h_3 => cases holds

theorem safe_mounted (check : List Text → Bool) : Safe fun value => (mounted value).any check := by
  intro value holds
  rw [Option.any_eq_true] at holds
  obtain ⟨components, found, -⟩ := holds
  rw [mounted] at found
  split at found
  case isTrue under =>
    obtain ⟨path, rfl⟩ := under
    have base : mountBase.head? = some '/' := by decide +kernel
    rw [List.head?_append, base]
    simp
  case isFalse => cases found

theorem safe_mountRoot : Safe mountRoot := by
  intro value holds
  cases value with
  | nil => cases holds
  | cons c path =>
      intro eq
      cases eq
      cases holds

theorem safe_placeholders : ∀ pair ∈ placeholders, Safe pair.2 := by
  simp only [placeholders, List.forall_mem_cons]
  refine ⟨safe_namespace, safe_dnsSubdomain, safe_dnsSubdomain, safe_dnsSubdomain, safe_hex 8,
    safe_hex 32, safe_label.and_right _, (safe_begins rfl).and_right _, safe_mem _ ?_,
    (safe_or ?_ (safe_positive.and_left _)).and_left _, safe_mem _ ?_, safe_dnsSubdomain,
    safe_dnsSubdomain, safe_namespace, (safe_positive.and_left _).and_left _,
    safe_positive.and_left _, safe_positive, safe_positive, safe_mem _ ?_, safe_labelKey,
    safe_labelValue, safe_mounted _, safe_mounted _, safe_mountRoot, by simp⟩
  · decide +kernel
  · intro value zero
    rw [of_decide_eq_true zero]
    decide
  · decide +kernel
  · decide +kernel

/-! ## Values on several lines -/

theorem safe_lines {check : Text → Bool} (safe : Safe check) :
    Safe fun value => (value.splitOn '\n').all check := by
  intro value (holds : (value.splitOn '\n').all check)
  cases parts : value.splitOn '\n' with
  | nil => exact absurd parts (List.splitOn_ne_nil '\n' value)
  | cons first others =>
      rw [parts, List.all_cons, Bool.and_eq_true] at holds
      exact head_splitOn parts (safe first holds.1) (by decide)

theorem head_indented {width : Nat} {line rest : Text} (some_ : 0 < width)
    (found : indented width line = some rest) : line.head? ≠ some '@' := by
  rw [indented] at found
  split at found
  case isTrue spaces =>
    intro eq
    obtain ⟨-, spaces⟩ := spaces
    cases line with
    | nil => cases eq
    | cons c line =>
        cases eq
        rw [List.take_cons some_, List.all_cons] at spaces
        cases spaces
  case isFalse => cases found

theorem head_listItem {width : Nat} {line rest : Text} (some_ : 0 < width)
    (found : listItem width line = some rest) : line.head? ≠ some '@' := by
  rw [listItem] at found
  split at found
  case h_1 spaces => exact head_indented some_ spaces
  case h_2 => cases found

theorem safe_selectorLine : Safe selectorLine := by
  intro line holds
  rw [selectorLine] at holds
  split at holds
  case h_1 spaces => exact head_indented (by decide) spaces
  case h_2 => cases holds

theorem head_unlines {lines : List Text} (heads : ∀ line ∈ lines, line.head? ≠ some '@') :
    (unlines lines).head? ≠ some '@' := by
  cases lines with
  | nil => simp [unlines]
  | cons line lines =>
      cases line with
      | nil => simp [unlines]
      | cons c line => exact heads (c :: line) List.mem_cons_self

theorem safe_expected {render : Text → Option Text}
    (heads : ∀ value expected, render value = some expected → expected.head? ≠ some '@') :
    Safe fun value => (render value).any fun expected => value = stripNewlines expected := by
  intro value holds
  simp only [Option.any_eq_true, decide_eq_true_iff] at holds
  obtain ⟨expected, rendered, eq⟩ := holds
  have part : value <+: expected := eq ▸ List.rdropWhile_prefix _ _
  obtain ⟨rest, whole⟩ := part
  intro head
  apply heads value expected rendered
  rw [← whole, List.head?_append, head]
  rfl

theorem head_replicate {width : Nat} (some_ : 0 < width) (rest : Text) :
    (List.replicate width ' ' ++ rest).head? ≠ some '@' := by
  obtain ⟨n, rfl⟩ := Nat.exists_eq_add_of_lt some_
  simp [List.replicate_succ]

theorem head_sequencerScript {script expected : Text}
    (rendered : renderSequencerScript script = some expected) : expected.head? ≠ some '@' := by
  rw [renderSequencerScript] at rendered
  split at rendered
  case isTrue => cases rendered
  case isFalse =>
    cases rendered
    apply head_unlines
    intro line mem
    obtain ⟨source, -, rfl⟩ := List.mem_map.mp mem
    split
    · simp
    · exact head_replicate (by decide) source

theorem head_argumentLine (argument : Text) : (argumentLine argument).head? ≠ some '@' := by
  rw [argumentLine, List.append_assoc, List.append_assoc]
  exact head_replicate (by decide) _

theorem head_argumentLines {arguments lines : List Text}
    (rendered : argumentLines arguments = some lines) : ∀ line ∈ lines, line.head? ≠ some '@' := by
  fun_induction argumentLines arguments generalizing lines with
  | case1 ns name uid rest valid ih =>
      obtain ⟨later, found, rfl⟩ := Option.map_eq_some_iff.mp rendered
      intro line mem
      rcases List.mem_append.mp mem with here | mem
      · simp only [List.mem_cons, List.not_mem_nil, or_false] at here
        rcases here with rfl | rfl | rfl <;> exact head_argumentLine _
      · exact ih found line mem
  | case2 => cases rendered
  | case3 =>
      cases rendered
      simp

theorem head_sequencerArguments {arguments : List Text} {expected : Text}
    (rendered : renderSequencerArguments arguments = some expected) :
    expected.head? ≠ some '@' := by
  rw [renderSequencerArguments] at rendered
  split at rendered
  case isTrue => cases rendered
  case isFalse =>
    obtain ⟨lines, found, rfl⟩ := Option.map_eq_some_iff.mp rendered
    exact head_unlines (head_argumentLines found)

theorem indent_pos {indent : Nat} {claims : List Text}
    (valid : validateClaimVolumeList indent claims) : 0 < indent := by
  simp only [validateClaimVolumeList, Bool.and_eq_true, decide_eq_true_iff] at valid
  obtain ⟨⟨⟨⟨mem, -⟩, -⟩, -⟩, -⟩ := valid
  have all : ∀ n ∈ [2, 4, 6, 8, 10, 12, 14, 16], 0 < n := by decide
  exact all indent mem

theorem head_claimVolumeMounts {indent : Nat} {claims : List Text} {expected : Text}
    (rendered : renderClaimVolumeMounts indent claims = some expected) :
    expected.head? ≠ some '@' := by
  rw [renderClaimVolumeMounts] at rendered
  split at rendered
  case isTrue valid =>
    cases rendered
    apply head_unlines
    intro line mem
    obtain ⟨⟨claim, index⟩, -, mem⟩ := List.mem_flatMap.mp mem
    simp only [List.mem_cons, List.not_mem_nil, or_false, volumeName, List.append_assoc] at mem
    rcases mem with rfl | rfl <;> exact head_replicate (indent_pos valid) _
  case isFalse => cases rendered

theorem head_claimVolumes {indent : Nat} {claims : List Text} {expected : Text}
    (rendered : renderClaimVolumes indent claims = some expected) : expected.head? ≠ some '@' := by
  rw [renderClaimVolumes] at rendered
  split at rendered
  case isTrue valid =>
    cases rendered
    apply head_unlines
    intro line mem
    obtain ⟨⟨claim, index⟩, -, mem⟩ := List.mem_flatMap.mp mem
    simp only [List.mem_cons, List.not_mem_nil, or_false, volumeName, List.append_assoc] at mem
    rcases mem with rfl | rfl | rfl <;> exact head_replicate (indent_pos valid) _
  case isFalse => cases rendered

theorem safe_claimVolumeBlock (mounts : Bool) : Safe (validateClaimVolumeBlock mounts) := by
  apply safe_expected
  intro value expected rendered
  cases mounts with
  | true => exact head_claimVolumeMounts rendered
  | false => exact head_claimVolumes rendered

theorem safe_multilinePlaceholders (script : Text) :
    ∀ pair ∈ multilinePlaceholders script, Safe pair.2 := by
  simp only [multilinePlaceholders, List.forall_mem_cons]
  refine ⟨safe_lines safe_selectorLine, safe_lines ?_, safe_lines ?_,
    safe_expected fun _ _ => head_sequencerScript, safe_expected ?_,
    safe_claimVolumeBlock true, safe_claimVolumeBlock false, by simp⟩
  · intro line holds
    obtain ⟨name, found, -⟩ := (Option.any_eq_true _ _).mp holds
    exact head_listItem (by decide) found
  · intro line holds
    obtain ⟨path, found, -⟩ := (Option.any_eq_true _ _).mp holds
    obtain ⟨rest, spaces, -⟩ := Option.bind_eq_some_iff.mp found
    exact head_indented (by decide) spaces
  · intro value expected rendered
    obtain ⟨arguments, -, rendered⟩ := Option.bind_eq_some_iff.mp rendered
    exact head_sequencerArguments rendered

end StorageScaleTest.Templates
