/-
# Secrets of two realms

A policy lists creation rules. A file is encrypted for the recipients of the first rule whose
pattern is found in its path, and the secrets of the realms `home` and `work` shall have no
recipient in common. The check goes by the text of the patterns: a rule belongs to a realm if
its pattern starts with the directory of the realm, and its recipients are those in the `age`
lists of its key groups. A pattern that matches without such a start, or a recipient that is
listed in another form, is not seen.
-/

import NixConfig.Data.Json
import NixConfig.Semantics.Fallible

namespace NixConfig.Sops

open Data Semantics

abbrev Value := Json String

abbrev Document := List (String × Value)

/-! ## The check of a repository -/

inductive ToolError
  | policyMissing
  | unreadable
  | notMap
  | keys
  | emptyKeys
  | rules
  | emptyRules
  | notEncrypted
  | shared (recipients : List String)

def string? : Value → Option String
  | .string value => some value
  | _ => none

def validate (document : Document) : Except ToolError Unit := do
  let keys ← match document.lookup "keys" with
    | some (.array items) => if items.all (string? · |>.isSome) then .ok items else .error .keys
    | _ => .error .keys
  if keys.isEmpty then throw .emptyKeys
  match document.lookup "creation_rules" with
  | some (.array []) => .error .emptyRules
  | some (.array _) => .ok ()
  | _ => .error .rules

def creationRules (document : Document) : Except ToolError (List Document) :=
  match document.lookup "creation_rules" with
  | some (.array rules) => rules.mapM fun
    | .object rule => .ok rule
    | _ => .error .rules
  | _ => .error .rules

def pathRegex (rule : Document) : Option String := (rule.lookup "path_regex").bind string?

/-- The strings in the `age` lists of the key groups. -/
def groupRecipients (rule : Document) : List String :=
  match rule.lookup "key_groups" with
  | some (.array groups) => groups.flatMap fun
    | .object group => match group.lookup "age" with
      | some (.array age) => age.filterMap string?
      | _ => []
    | _ => []
  | _ => []

def recipientsForRule (rules : List Document) (regex : String) : List String :=
  match rules.find? (pathRegex · == some regex) with
  | some rule => groupRecipients rule
  | none => []

def realmPrefix (realm : String) : List Char := ("secrets/" ++ realm ++ "/").toList

def realmRecipients (rules : List Document) (realm : String) : List String :=
  rules.flatMap fun rule => match pathRegex rule with
    | some regex =>
      if (realmPrefix realm).isPrefixOf regex.toList then recipientsForRule rules regex else []
    | none => []

/-- The secret files, and the policy where there is one. A file may be unreadable. -/
structure Repository where
  secretFiles : List (Option Value)
  policy : Option (Option Value)

def checkEncrypted : Option Value → Except ToolError Unit
  | none => .error .unreadable
  | some (.object members) => match members.lookup "sops" with
    | some (.object _) => .ok ()
    | _ => .error .notEncrypted
  | some _ => .error .notEncrypted

def validateRepository (repository : Repository) : Except ToolError Unit :=
  match repository.policy with
  | none => if repository.secretFiles.isEmpty then .ok () else .error .policyMissing
  | some none => .error .unreadable
  | some (some (.object document)) => do
    validate document
    repository.secretFiles.forM checkEncrypted
    let rules ← creationRules document
    let overlap := (realmRecipients rules "home").filter (realmRecipients rules "work").contains
    if overlap.isEmpty then .ok () else .error (.shared overlap)
  | some (some _) => .error .notMap

/-! ## What is encrypted for whom -/

/-- The program that encrypts: whether a pattern is found in a path, and the age recipients
that it reads from a rule, in whatever form they are given. -/
structure Encryption where
  found : Value → String → Bool
  listed : Document → List String

/-- The first rule that matches. A rule without a pattern matches every path. -/
def Encryption.applies (sops : Encryption) (rules : List Document) (path : String) : Option Document :=
  rules.find? fun rule => match rule.lookup "path_regex" with
    | some regex => sops.found regex path
    | none => true

def secretPath (realm name : String) : String := "secrets/" ++ realm ++ "/" ++ name ++ ".yaml"

/-- A string in an `age` list of one of the key groups. -/
def InKeyGroups (rule : Document) (recipient : String) : Prop :=
  ∃ groups group age, rule.lookup "key_groups" = some (.array groups) ∧ .object group ∈ groups ∧
    group.lookup "age" = some (.array age) ∧ .string recipient ∈ age

/-- A rule whose pattern starts with the directory of the realm, and whose recipients are all
in its key groups. -/
def RuleOfRealm (sops : Encryption) (realm : String) (rule : Document) : Prop :=
  (∃ regex, rule.lookup "path_regex" = some (.string regex) ∧
    realmPrefix realm <+: regex.toList) ∧
  ∀ recipient ∈ sops.listed rule, InKeyGroups rule recipient

variable {sops : Encryption} {rules : List Document} {rule : Document} {realm recipient path : String}

theorem mem_groupRecipients (hlisted : InKeyGroups rule recipient) :
    recipient ∈ groupRecipients rule := by
  obtain ⟨groups, group, age, hgroups, hgroup, hage, hmem⟩ := hlisted
  simp only [groupRecipients, hgroups, List.mem_flatMap]
  refine ⟨_, hgroup, ?_⟩
  simp only [hage, List.mem_filterMap]
  exact ⟨_, hmem, rfl⟩

/-- The first of some items is also the first of fewer. -/
theorem find?_of_imp {α : Type} {p q : α → Bool} {items : List α} {item : α}
    (hfind : items.find? p = some item) (hitem : q item) (himp : ∀ other, q other → p other) :
    items.find? q = some item := by
  obtain ⟨-, before, after, rfl, hbefore⟩ := List.find?_eq_some_iff_append.mp hfind
  refine List.find?_eq_some_iff_append.mpr ⟨hitem, before, after, rfl, fun other hother => ?_⟩
  have hnot := hbefore other hother
  simp only [Bool.not_eq_true'] at hnot ⊢
  by_contra hq
  rw [himp other (by simpa using hq)] at hnot
  cases hnot

/-- The recipients of a rule that applies are collected for its realm. -/
theorem mem_realmRecipients (happlies : sops.applies rules path = some rule)
    (hrule : RuleOfRealm sops realm rule) (hlisted : recipient ∈ sops.listed rule) :
    recipient ∈ realmRecipients rules realm := by
  obtain ⟨⟨regex, hregex, hstarts⟩, hgroups⟩ := hrule
  have hpattern : pathRegex rule = some regex := by simp [pathRegex, hregex, string?]
  have hfound := List.find?_some happlies
  -- An earlier rule with the same pattern would have applied.
  have hfirst : rules.find? (pathRegex · == some regex) = some rule := by
    refine find?_of_imp happlies (by simp [hpattern]) fun other hother => ?_
    cases hvalue : other.lookup "path_regex" with
    | none => rfl
    | some value =>
      cases value <;> simp [pathRegex, hvalue, string?] at hother
      simpa [hregex, hother] using hfound
  simp only [realmRecipients, List.mem_flatMap]
  refine ⟨rule, List.mem_of_find?_eq_some happlies, ?_⟩
  simp only [hpattern, List.isPrefixOf_iff_prefix.mpr hstarts, if_true, recipientsForRule, hfirst]
  exact mem_groupRecipients (hgroups recipient hlisted)

theorem disjoint_of_validateRepository {repository : Repository} {document : Document}
    (hpolicy : repository.policy = some (some (.object document)))
    (hvalid : validateRepository repository = .ok ()) (hrules : creationRules document = .ok rules)
    (hhome : recipient ∈ realmRecipients rules "home") :
    recipient ∉ realmRecipients rules "work" := by
  simp only [validateRepository, hpolicy, hrules, bind_eq_ok] at hvalid
  obtain ⟨⟨⟩, -, ⟨⟩, -, _, ⟨⟩, hvalid⟩ := hvalid
  split at hvalid
  · rename_i hempty
    intro hwork
    have hboth : recipient ∈ (realmRecipients rules "home").filter
        (realmRecipients rules "work").contains := by
      simp [hhome, hwork]
    rw [List.isEmpty_iff.mp hempty] at hboth
    cases hboth
  · cases hvalid

/-- If the rules that match two secrets start with the directories of their realms and list
their recipients in key groups, a valid repository encrypts the two for no common recipient. -/
theorem realms_isolated (sops : Encryption) (repository : Repository) (document : Document)
    (rules : List Document) (hpolicy : repository.policy = some (some (.object document)))
    (hvalid : validateRepository repository = .ok ()) (hrules : creationRules document = .ok rules)
    (x y : String) (home work : Document)
    (hhome : sops.applies rules (secretPath "home" x) = some home)
    (hwork : sops.applies rules (secretPath "work" y) = some work)
    (hruleHome : RuleOfRealm sops "home" home) (hruleWork : RuleOfRealm sops "work" work) :
    ∀ recipient ∈ sops.listed home, recipient ∉ sops.listed work := by
  intro recipient hlisted hboth
  exact disjoint_of_validateRepository hpolicy hvalid hrules
    (mem_realmRecipients hhome hruleHome hlisted) (mem_realmRecipients hwork hruleWork hboth)

/-- Patterns without special characters, and recipients under `age` beside those of the
groups. -/
def plainSops : Encryption where
  found
    | .string regex, path => path.toList.tails.any regex.toList.isPrefixOf
    | _, _ => false
  listed rule := match rule.lookup "age" with
    | some (.string recipient) => recipient :: groupRecipients rule
    | _ => groupRecipients rule

def grouped (regex recipient : String) : Document :=
  [("path_regex", .string regex),
    ("key_groups", .array [.object [("age", .array [.string recipient])]])]

def repositoryOf (rules : List Document) : Repository where
  secretFiles := []
  policy := some (some (.object [("keys", .array [.string "age1a", .string "age1b"]),
    ("creation_rules", .array (rules.map .object))]))

theorem ruleOfRealm_grouped {regex : String} (hstarts : realmPrefix realm <+: regex.toList) :
    RuleOfRealm plainSops realm (grouped regex recipient) := by
  refine ⟨⟨regex, rfl, hstarts⟩, fun other hother => ?_⟩
  obtain rfl : other = recipient := by
    simpa [plainSops, grouped, groupRecipients, string?, List.lookup_cons] using hother
  exact ⟨_, _, _, rfl, List.mem_singleton_self _, rfl, List.mem_singleton_self _⟩

/-- One rule for each realm. -/
def realmRules : List Document := [grouped "secrets/home/" "age1a", grouped "secrets/work/" "age1b"]

theorem grouped_rules_isolated :
    validateRepository (repositoryOf realmRules) = .ok () ∧
      ∀ recipient ∈ plainSops.listed (grouped "secrets/home/" "age1a"),
        recipient ∉ plainSops.listed (grouped "secrets/work/" "age1b") :=
  ⟨rfl, realms_isolated plainSops (repositoryOf realmRules) _ realmRules rfl rfl rfl "a" "b" _ _ rfl
    rfl (ruleOfRealm_grouped (by decide)) (ruleOfRealm_grouped (by decide))⟩

/-- The recipients of the rules that apply to a secret of each realm. -/
def listedFor (rules : List Document) : List (Option (List String)) :=
  [secretPath "home" "a", secretPath "work" "b"].map fun path =>
    (plainSops.applies rules path).map plainSops.listed

/-- A pattern above both realms is in neither, and a recipient beside the groups is not seen. -/
theorem shared_recipients_accepted :
    [[grouped "secrets/" "age1a"],
      [[("path_regex", .string "secrets/home/"), ("age", .string "age1a")],
        grouped "secrets/work/" "age1a"]].Forall fun rules =>
      validateRepository (repositoryOf rules) = .ok () ∧
        listedFor rules = [some ["age1a"], some ["age1a"]] := by
  refine ⟨⟨rfl, ?_⟩, rfl, ?_⟩ <;> decide +kernel

end NixConfig.Sops
