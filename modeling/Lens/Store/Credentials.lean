import Lens.Redis.Arguments
import Lens.Store.Secrecy

/-!
# Credentials in Redis commands

A password stands among the arguments of a command, after a keyword or a user name
in the commands that have them (`Credential`).  The redactor looks at single
arguments before and at the place of one, so a password can be taken for a keyword
itself: then the argument after it is hidden too, which tells that password from
others.  And it knows of no argument two places after `AUTH2`, where the password
of `MIGRATE` stands.
-/

namespace Lens.Redis

open List
open Redact (redact replacement redisArgumentIsSensitive isSensitiveName)

/-! ## Where a password stands -/

/-- An argument that is a keyword in some letter case. -/
structure Keyword (word : String) where
  bytes : Bytes
  spells : Str.toAsciiUppercase (renderBytes bytes) = word

/-- The first letter of a rule of `ACL SETUSER` that holds a password. -/
inductive Rule where
  | add | remove | hash
deriving DecidableEq

def Rule.byte : Rule → UInt8
  | add => 0x3e
  | remove => 0x3c
  | hash => 0x23

/-- A command with a password left open. -/
inductive Credential where
  | auth (lead trail : List Bytes)
  | hello (lead : List Bytes) (keyword : Keyword "AUTH") (user : Bytes)
      (trail : List Bytes)
  | migrate (lead : List Bytes) (keyword : Keyword "AUTH") (trail : List Bytes)
  | migrate2 (lead : List Bytes) (keyword : Keyword "AUTH2") (user : Bytes)
      (trail : List Bytes)
  | acl (keyword : Keyword "SETUSER") (lead : List Bytes) (rule : Rule)
      (trail : List Bytes)
  | config (keyword : Keyword "SET") (parameter : Bytes) (lead trail : List Bytes)

namespace Credential

def command : Credential → String
  | auth .. => "AUTH"
  | hello .. => "HELLO"
  | migrate .. => "MIGRATE"
  | migrate2 .. => "MIGRATE"
  | acl .. => "ACL"
  | config .. => "CONFIG"

/-- The arguments before the password. -/
def lead : Credential → List Bytes
  | auth lead _ => lead
  | hello lead keyword user _ => lead ++ [keyword.bytes, user]
  | migrate lead keyword _ => lead ++ [keyword.bytes]
  | migrate2 lead keyword user _ => lead ++ [keyword.bytes, user]
  | acl keyword lead _ _ => keyword.bytes :: lead
  | config keyword parameter lead _ => keyword.bytes :: parameter :: lead

/-- The argument of a password. -/
def argument : Credential → Bytes → Bytes
  | acl _ _ rule _, password => rule.byte :: password
  | _, password => password

/-- The arguments after the password. -/
def trail : Credential → List Bytes
  | auth _ trail | hello _ _ _ trail | migrate _ _ trail | migrate2 _ _ _ trail | acl _ _ _ trail
  | config _ _ _ trail => trail

/-- The arguments of the command. -/
def arguments (c : Credential) (password : Bytes) : List Bytes :=
  c.lead ++ c.argument password :: c.trail

/-- Any two passwords of one length are stored alike. -/
def Hides (η : Type) (c : Credential) : Prop :=
  ∀ password password' : Bytes,
    (renderBytes password).length = (renderBytes password').length →
    ∀ (name : Bytes) (value value' : RespValue), commandName name = c.command →
      argumentsOf value = name :: c.arguments password →
      argumentsOf value' = name :: c.arguments password' →
      ∀ maxBody < 2 ^ 64,
        Store.StoredAlike η (requestMessage value maxBody) (requestMessage value' maxBody)

/-- An argument that hides the one after it. -/
def hidesNext (argument : String) : Bool :=
  isSensitiveName argument || ["AUTH", "AUTH2"].contains (Str.toAsciiUppercase argument)

/-- The commands whose password is hidden, and hides nothing else. -/
def covered : Credential → Bool
  | auth .. | acl .. | config .. => true
  | hello _ _ _ trail => trail.length ≤ 1
  | migrate _ _ trail => trail.isEmpty
  | migrate2 _ _ user trail => hidesNext (renderBytes user) && trail.isEmpty

end Credential

/-! ## Replaced arguments -/

theorem getElem?_safe (command : String) (arguments : List String) (i : Nat) :
    (safe command arguments)[i]? = arguments[i]?.map fun a =>
      if redisArgumentIsSensitive command i arguments then replacement else a := by
  rw [safe, getElem?_mapIdx]

section Hole

variable {command : String} {A B : List String} {x y : String} {i : Nat}

theorem getElem?_hole (hi : i ≠ A.length) : (A ++ x :: B)[i]? = (A ++ y :: B)[i]? := by
  rcases Nat.lt_or_ge i A.length with hlt | hge
  · rw [getElem?_append_left hlt, getElem?_append_left hlt]
  · obtain ⟨j, rfl⟩ := Nat.exists_eq_add_of_lt (Nat.lt_of_le_of_ne hge (Ne.symm hi))
    rw [getElem?_append_right (by omega), getElem?_append_right (by omega),
      show A.length + j + 1 - A.length = j + 1 by omega, getElem?_cons_succ, getElem?_cons_succ]

theorem getElem?_hole_self : (A ++ x :: B)[A.length]? = some x := by
  rw [getElem?_append_right (Nat.le_refl _), Nat.sub_self, getElem?_cons_zero]

theorem getElem?_hole_after (j : Nat) : (A ++ x :: B)[A.length + 1 + j]? = B[j]? := by
  rw [getElem?_append_right (by omega), show A.length + 1 + j - A.length = j + 1 by omega,
    getElem?_cons_succ]

/-- The list is the same wherever the argument is not, or is replaced. -/
theorem getElem?_safe_hole (hself : i = A.length →
      redisArgumentIsSensitive command i (A ++ x :: B) = true ∧
        redisArgumentIsSensitive command i (A ++ y :: B) = true) (hsame : i ≠ A.length →
      redisArgumentIsSensitive command i (A ++ x :: B) =
        redisArgumentIsSensitive command i (A ++ y :: B)) :
    (safe command (A ++ x :: B))[i]? = (safe command (A ++ y :: B))[i]? := by
  rw [getElem?_safe, getElem?_safe]
  by_cases hi : i = A.length
  · obtain ⟨hx, hy⟩ := hself hi
    rw [hx, hy, hi, getElem?_hole_self, getElem?_hole_self]
    rfl
  · rw [getElem?_hole (y := y) hi, hsame hi]

/-- Two arguments that are both replaced leave the same, if they hide the same others. -/
theorem safe_hole (hx : redisArgumentIsSensitive command A.length (A ++ x :: B) = true)
    (hy : redisArgumentIsSensitive command A.length (A ++ y :: B) = true)
    (hsame : ∀ i < A.length + 1 + B.length, i ≠ A.length →
      redisArgumentIsSensitive command i (A ++ x :: B) =
        redisArgumentIsSensitive command i (A ++ y :: B)) :
    safe command (A ++ x :: B) = safe command (A ++ y :: B) := by
  have hlen : ∀ z, (safe command (A ++ z :: B)).length = A.length + 1 + B.length := by
    intro z
    rw [safe, length_mapIdx, length_append, length_cons]
    omega
  refine ext_getElem? fun i => ?_
  rcases Nat.lt_or_ge i (A.length + 1 + B.length) with hlt | hge
  · exact getElem?_safe_hole (fun h => h ▸ ⟨hx, hy⟩) (hsame i hlt)
  · rw [getElem?_eq_none (hlen x ▸ hge), getElem?_eq_none (hlen y ▸ hge)]

end Hole

/-! ## Budgets -/

variable {lead trail : List Bytes} {a : Bytes}

/-- What is shown with the budget ending at or after the argument. -/
theorem shown_hole (k : Nat) :
    shown (width lead + k) (lead ++ a :: trail) =
      lead.map renderBytes ++ String.ofList ((rendered a).take k) ::
        shown (k - (rendered a).length) trail := by
  rw [shown_append, shown_of_width_le (Nat.le_add_right _ _), Nat.add_sub_cancel_left, shown]

/-- Two arguments of one length are shown alike, or after the same whole arguments. -/
theorem shown_cases {b : Bytes} (hlen : (rendered a).length = (rendered b).length)
    (maxBody : Nat) :
    shown maxBody (lead ++ a :: trail) = shown maxBody (lead ++ b :: trail) ∨
      ∃ k rest, rest.length = trail.length ∧
        shown maxBody (lead ++ a :: trail) =
          lead.map renderBytes ++ String.ofList ((rendered a).take (k + 1)) :: rest ∧
        shown maxBody (lead ++ b :: trail) =
          lead.map renderBytes ++ String.ofList ((rendered b).take (k + 1)) :: rest := by
  rcases Nat.lt_or_ge (width lead) maxBody with hlt | hge
  · obtain ⟨k, rfl⟩ := Nat.exists_eq_add_of_lt hlt
    refine .inr ⟨k, shown (k + 1 - (rendered a).length) trail, length_shown _ _, ?_, ?_⟩
    · rw [Nat.add_assoc, shown_hole]
    · rw [Nat.add_assoc, shown_hole, hlen]
  · refine .inl ?_
    rw [shown_append, shown_append, Nat.sub_eq_zero_of_le hge, shown, shown, take_zero,
      take_zero, Nat.zero_sub, Nat.zero_sub]

/-! ## Which arguments are hidden -/

section Sensitive

variable (i : Nat) (l : List String)

theorem sensitive_auth : redisArgumentIsSensitive "AUTH" i l = true := by
  simp [redisArgumentIsSensitive]

theorem sensitive_hello : redisArgumentIsSensitive "HELLO" i l =
    (decide (0 < i) && (l[i - 2]?).any (Str.eqIgnoreAsciiCase · "AUTH")) := by
  simp [redisArgumentIsSensitive]

theorem sensitive_config : redisArgumentIsSensitive "CONFIG" i l =
    (l.head?.any (Str.eqIgnoreAsciiCase · "SET") && decide (2 ≤ i)) := by
  simp [redisArgumentIsSensitive]

theorem sensitive_acl : redisArgumentIsSensitive "ACL" i l =
    (l.head?.any (Str.eqIgnoreAsciiCase · "SETUSER") && (l[i]?).any fun value =>
      Str.startsWith value ">" || Str.startsWith value "#" || Str.startsWith value "<") := by
  simp [redisArgumentIsSensitive]

theorem sensitive_migrate : redisArgumentIsSensitive "MIGRATE" i l =
    (isSensitiveName ((l[i]?).getD "") ||
      Credential.hidesNext (if i = 0 then "" else (l[i - 1]?).getD "")) := by
  simp [redisArgumentIsSensitive, Credential.hidesNext, Bool.or_assoc]

end Sensitive

/-! ## Covered commands -/

theorem any_keyword {word : String} (keyword : Keyword word) :
    (some (renderBytes keyword.bytes)).any (Str.eqIgnoreAsciiCase · word) = true :=
  Str.eqIgnoreAsciiCase_of_toAsciiUppercase keyword.spells

section Covered

variable {u x y : String} {A B : List String}

theorem hello_self (keyword : Keyword "AUTH") (user z : String) (A B : List String) :
    redisArgumentIsSensitive "HELLO" (A ++ [renderBytes keyword.bytes, user]).length
      (A ++ [renderBytes keyword.bytes, user] ++ z :: B) = true := by
  have hget : (A ++ [renderBytes keyword.bytes, user] ++ z :: B)[A.length + 2 - 2]? =
      some (renderBytes keyword.bytes) := by
    rw [Nat.add_sub_cancel, append_assoc]
    exact getElem?_hole_self
  rw [length_append, length_cons, length_singleton, sensitive_hello, hget, any_keyword]
  simp

theorem safe_hello (keyword : Keyword "AUTH") (user : String) (hB : B.length ≤ 1) :
    safe "HELLO" (A ++ [renderBytes keyword.bytes, user] ++ x :: B) =
      safe "HELLO" (A ++ [renderBytes keyword.bytes, user] ++ y :: B) := by
  refine safe_hole (hello_self ..) (hello_self ..) fun i hlt hne => ?_
  -- The password is not two places before any argument.
  rw [sensitive_hello, sensitive_hello, getElem?_hole (y := y) (by simp at hlt ⊢; omega)]

theorem hello_after (A B : List String) (x : String) :
    redisArgumentIsSensitive "HELLO" (A.length + 1 + 1) (A ++ x :: B) =
      Str.eqIgnoreAsciiCase x "AUTH" := by
  rw [sensitive_hello, show A.length + 1 + 1 - 2 = A.length by omega, getElem?_hole_self]
  simp

theorem migrate_self (hu : Credential.hidesNext u = true) (z : String) (A B : List String) :
    redisArgumentIsSensitive "MIGRATE" (A ++ [u]).length (A ++ [u] ++ z :: B) = true := by
  have hget : (A ++ [u] ++ z :: B)[A.length + 1 - 1]? = some u := by
    rw [Nat.add_sub_cancel, append_assoc]
    exact getElem?_hole_self
  rw [length_append, length_singleton, sensitive_migrate, if_neg (Nat.succ_ne_zero _),
    hget, Option.getD_some, hu, Bool.or_true]

theorem migrate_after (A B : List String) (x : String) :
    redisArgumentIsSensitive "MIGRATE" (A.length + 1 + 0) (A ++ x :: B) =
      (isSensitiveName (B[0]?.getD "") || Credential.hidesNext x) := by
  rw [sensitive_migrate, getElem?_hole_after, if_neg (by omega),
    show A.length + 1 + 0 - 1 = A.length by omega, getElem?_hole_self, Option.getD_some]

theorem safe_migrate (hu : Credential.hidesNext u = true) :
    safe "MIGRATE" (A ++ [u] ++ [x]) = safe "MIGRATE" (A ++ [u] ++ [y]) := by
  refine safe_hole (migrate_self hu ..) (migrate_self hu ..) fun i hlt hne => ?_
  rw [length_nil] at hlt
  rw [sensitive_migrate, sensitive_migrate, getElem?_hole (y := y) hne,
    getElem?_hole (i := i - 1) (y := y) (by omega)]

theorem safe_acl (keyword : Keyword "SETUSER") {rule : Rule}
    (hx : [Char.ofNat rule.byte.toNat] <+: x.toList)
    (hy : [Char.ofNat rule.byte.toNat] <+: y.toList) :
    safe "ACL" (renderBytes keyword.bytes :: A ++ x :: B) =
      safe "ACL" (renderBytes keyword.bytes :: A ++ y :: B) := by
  have hstarts : ∀ z : String, [Char.ofNat rule.byte.toNat] <+: z.toList →
      (Str.startsWith z ">" || Str.startsWith z "#" || Str.startsWith z "<") = true := by
    intro z hz
    have hrule := isPrefixOf_iff_prefix.mpr hz
    rw [Bool.or_eq_true, Bool.or_eq_true]
    cases rule with
    | add => exact .inl (.inl hrule)
    | remove => exact .inr hrule
    | hash => exact .inl (.inr hrule)
  refine safe_hole ?_ ?_ fun i hlt hne => ?_
  · rw [sensitive_acl, getElem?_hole_self, cons_append, head?_cons, any_keyword]
    exact hstarts x hx
  · rw [sensitive_acl, getElem?_hole_self, cons_append, head?_cons, any_keyword]
    exact hstarts y hy
  · rw [sensitive_acl, sensitive_acl, getElem?_hole (y := y) hne]
    rfl

theorem safe_config (keyword : Keyword "SET") (parameter : String) :
    safe "CONFIG" (renderBytes keyword.bytes :: parameter :: A ++ x :: B) =
      safe "CONFIG" (renderBytes keyword.bytes :: parameter :: A ++ y :: B) := by
  have hself : ∀ z, redisArgumentIsSensitive "CONFIG"
      (renderBytes keyword.bytes :: parameter :: A).length
        (renderBytes keyword.bytes :: parameter :: A ++ z :: B) = true := by
    intro z
    rw [sensitive_config, cons_append, head?_cons, any_keyword]
    simp
  refine safe_hole (hself x) (hself y) fun i hlt hne => ?_
  rw [sensitive_config, sensitive_config]
  rfl

theorem safe_auth : safe "AUTH" (A ++ x :: B) = safe "AUTH" (A ++ y :: B) :=
  safe_hole (sensitive_auth ..) (sensitive_auth ..) fun _ _ _ => by
    rw [sensitive_auth, sensitive_auth]

end Covered

namespace Credential

variable {c : Credential} {q : Nat} {user : Bytes}

theorem hidesNext_keyword {word : String} (hword : word ∈ ["AUTH", "AUTH2"])
    (keyword : Keyword word) : hidesNext (renderBytes keyword.bytes) = true := by
  rw [hidesNext, keyword.spells, contains_iff_mem.mpr hword, Bool.or_true]

theorem map_lead_migrate2 (lead : List Bytes) (keyword : Keyword "AUTH2")
    (user : Bytes) (trail : List Bytes) :
    (migrate2 lead keyword user trail).lead.map renderBytes =
      (lead ++ [keyword.bytes]).map renderBytes ++ [renderBytes user] := by
  rw [Credential.lead, append_cons, map_append]
  rfl

theorem renderByte_rule (rule : Rule) : renderByte rule.byte = [Char.ofNat rule.byte.toNat] := by
  cases rule with
  | add => decide
  | remove => decide
  | hash => decide

/-- Where the password shows at all, it is replaced and hides nothing else. -/
theorem safe_covered (hc : c.covered = true) (password password' : Bytes) (k : Nat)
    {rest : List String} (hrest : rest.length = c.trail.length) :
    safe c.command (c.lead.map renderBytes ++
        String.ofList ((rendered (c.argument password)).take (k + 1)) :: rest) =
      safe c.command (c.lead.map renderBytes ++
        String.ofList ((rendered (c.argument password')).take (k + 1)) :: rest) := by
  cases c with
  | auth lead trail => exact safe_auth
  | hello lead keyword user trail =>
    have htrail : trail.length ≤ 1 := of_decide_eq_true hc
    rw [Credential.lead, map_append]
    exact safe_hello keyword (renderBytes user) (hrest ▸ htrail)
  | migrate lead keyword trail =>
    obtain rfl := List.isEmpty_iff.mp hc
    obtain rfl := length_eq_zero_iff.mp hrest
    rw [Credential.lead, map_append]
    exact safe_migrate (hidesNext_keyword (by decide) keyword)
  | migrate2 lead keyword user trail =>
    rw [covered, Bool.and_eq_true] at hc
    obtain rfl := List.isEmpty_iff.mp hc.2
    obtain rfl := length_eq_zero_iff.mp hrest
    rw [map_lead_migrate2]
    exact safe_migrate hc.1
  | acl keyword lead rule trail =>
    have hstarts : ∀ password, [Char.ofNat rule.byte.toNat] <+:
        (String.ofList ((rendered (rule.byte :: password)).take (k + 1))).toList := by
      intro password
      rw [String.toList_ofList, rendered, flatMap_cons, renderByte_rule,
        singleton_append, take_succ_cons]
      exact ⟨_, rfl⟩
    simp only [Credential.lead, Credential.argument, Credential.command, map_cons]
    exact safe_acl keyword (hstarts password) (hstarts password')
  | config keyword parameter lead trail =>
    simp only [Credential.lead, Credential.argument, Credential.command, map_cons]
    exact safe_config keyword (renderBytes parameter)

/-! ## Told passwords -/

/-- Summaries of arguments that differ in one place differ. -/
theorem redisRequestSummary_ne {command : String} {l l' : List String} (hnil : l ≠ [])
    (hlen : l.length = l'.length) (hsame : ∀ i, i ≠ q → l[i]? = l'[i]?)
    (hne : l[q]? ≠ l'[q]?) : redisRequestSummary command l ≠ redisRequestSummary command l' := by
  have hnil' : l' ≠ [] := by
    rw [← length_pos_iff, ← hlen, length_pos_iff]
    exact hnil
  intro heq
  rw [redisRequestSummary, redisRequestSummary, if_neg (by rwa [List.isEmpty_iff]),
    if_neg (by rwa [List.isEmpty_iff])] at heq
  exact Str.join_ne hlen hsame hne ((String.append_right_inj _).mp heq)

/-- A command in array form. -/
def arrayOf (words : List Bytes) : RespValue :=
  .array (some (words.map fun word => .bulk (some word)))

theorem argumentsOf_arrayOf (words : List Bytes) : argumentsOf (arrayOf words) = words := by
  rw [arrayOf, argumentsOf, filterMap_map]
  exact filterMap_some

theorem commandName_command (c : Credential) :
    commandName (Utf8.asBytes c.command) = c.command := by
  cases c with
  | auth _ _ => exact (by decide +kernel : commandName (Utf8.asBytes "AUTH") = "AUTH")
  | hello _ _ _ _ => exact (by decide +kernel : commandName (Utf8.asBytes "HELLO") = "HELLO")
  | migrate _ _ _ | migrate2 _ _ _ _ =>
    exact (by decide +kernel : commandName (Utf8.asBytes "MIGRATE") = "MIGRATE")
  | acl _ _ _ _ => exact (by decide +kernel : commandName (Utf8.asBytes "ACL") = "ACL")
  | config _ _ _ _ => exact (by decide +kernel : commandName (Utf8.asBytes "CONFIG") = "CONFIG")

variable {η : Type} {A : List String}

/-- Two passwords are told apart when, with the budget ending in them, exactly one
argument is stored differently. -/
theorem not_hides (hfits : width c.lead + 4 < 2 ^ 64) (password password' : Bytes)
    (hlen : (renderBytes password).length = (renderBytes password').length) {k : Nat} (hk : k ≤ 4)
    (hshort : k ≤ (rendered (c.argument password)).length)
    (hshort' : k ≤ (rendered (c.argument password')).length) {x y : String}
    (hx : String.ofList ((rendered (c.argument password)).take k) = x)
    (hy : String.ofList ((rendered (c.argument password')).take k) = y) (hsame : ∀ i, i ≠ q →
      (safe c.command (c.lead.map renderBytes ++ x :: c.trail.map fun _ => ""))[i]? =
        (safe c.command (c.lead.map renderBytes ++ y :: c.trail.map fun _ => ""))[i]?)
    (hne : (safe c.command (c.lead.map renderBytes ++ x :: c.trail.map fun _ => ""))[q]? ≠
      (safe c.command (c.lead.map renderBytes ++ y :: c.trail.map fun _ => ""))[q]?) :
    ¬ c.Hides η := by
  intro h
  have hshown : ∀ p, k ≤ (rendered (c.argument p)).length → ∀ z,
      String.ofList ((rendered (c.argument p)).take k) = z →
      shown (width c.lead + k) (c.arguments p) =
        c.lead.map renderBytes ++ z :: c.trail.map fun _ => "" := by
    intro p hp z hz
    rw [arguments, shown_hole, hz, Nat.sub_eq_zero_of_le hp, shown_zero]
  have hmax : width c.lead + k < 2 ^ 64 := by omega
  let name := Utf8.asBytes c.command
  have halike := h password password' hlen name (arrayOf (name :: c.arguments password))
    (arrayOf (name :: c.arguments password')) (commandName_command c) (argumentsOf_arrayOf _)
    (argumentsOf_arrayOf _) (width c.lead + k) hmax
  have hsummary := (Store.storedAlike_iff.mp halike).1
  rw [redact_requestMessage (argumentsOf_arrayOf _) hmax,
    redact_requestMessage (argumentsOf_arrayOf _) hmax, commandName_command c,
    hshown password hshort x hx, hshown password' hshort' y hy] at hsummary
  refine redisRequestSummary_ne ?_ ?_ hsame hne hsummary
  · rw [← length_pos_iff, safe, length_mapIdx, length_append, length_cons]
    omega
  · rw [safe, safe, length_mapIdx, length_mapIdx, length_append, length_append,
      length_cons, length_cons]

/-- A password that starts like a keyword, and one that does not. -/
def lookalike : Bytes := Utf8.asBytes "AUTHX"

def ordinary : Bytes := Utf8.asBytes "BBBBB"

theorem take_lookalike : String.ofList ((rendered lookalike).take 4) = "AUTH" := by decide +kernel

theorem take_ordinary : String.ofList ((rendered ordinary).take 4) = "BBBB" := by decide +kernel

/-- A password that is cut to a keyword hides an argument after it, which is empty as
the budget is spent. -/
theorem not_hides_lookalike (hfits : width c.lead + 4 < 2 ^ 64)
    (hargument : ∀ password, c.argument password = password) {j : Nat} (hj : j < c.trail.length)
    {B : List String} (hA : c.lead.map renderBytes = A) (hB : (c.trail.map fun _ => "") = B)
    (hself : ∀ z, redisArgumentIsSensitive c.command A.length (A ++ z :: B) = true)
    (hother : ∀ i, i ≠ A.length → i ≠ A.length + 1 + j →
      redisArgumentIsSensitive c.command i (A ++ "AUTH" :: B) =
        redisArgumentIsSensitive c.command i (A ++ "BBBB" :: B))
    (hhidden : redisArgumentIsSensitive c.command (A.length + 1 + j) (A ++ "AUTH" :: B) = true)
    (hshown : redisArgumentIsSensitive c.command (A.length + 1 + j) (A ++ "BBBB" :: B) = false) :
    ¬ c.Hides η := by
  have hempty : B[j]? = some "" := by
    rw [← hB, getElem?_map, getElem?_eq_getElem hj, Option.map_some]
  have hlong : ∀ p, 4 ≤ (rendered p).length → 4 ≤ (rendered (c.argument p)).length := by
    intro p hp
    rwa [hargument]
  refine not_hides hfits lookalike ordinary (by decide +kernel) (Nat.le_refl 4)
    (hlong lookalike (by decide +kernel)) (hlong ordinary (by decide +kernel))
    (by rw [hargument, take_lookalike]) (by rw [hargument, take_ordinary])
    (q := A.length + 1 + j) ?_ ?_
  · intro i hi
    rw [hA, hB]
    exact getElem?_safe_hole (fun h => h ▸ ⟨hself _, hself _⟩) fun hne => hother i hne hi
  · rw [hA, hB, getElem?_safe, getElem?_safe, getElem?_hole_after, getElem?_hole_after, hhidden,
      hshown, hempty]
    decide

theorem not_hides_hello {keyword : Keyword "AUTH"} (htrail : 1 < trail.length)
    (hfits : width (hello lead keyword user trail).lead + 4 < 2 ^ 64) :
    ¬ (hello lead keyword user trail).Hides η := by
  have hlead : (hello lead keyword user trail).lead.map renderBytes =
      lead.map renderBytes ++ [renderBytes keyword.bytes, renderBytes user] := by
    rw [Credential.lead, map_append]
    rfl
  have hlen : (lead.map renderBytes ++ [renderBytes keyword.bytes, renderBytes user]).length =
      lead.length + 2 := by
    rw [length_append, length_map]
    rfl
  refine not_hides_lookalike hfits (fun _ => rfl) htrail hlead rfl (fun z => hello_self ..) ?_ ?_ ?_
  · intro i hne hi
    show redisArgumentIsSensitive "HELLO" i _ = redisArgumentIsSensitive "HELLO" i _
    rw [sensitive_hello, sensitive_hello, getElem?_hole (y := "BBBB") (by omega)]
  · exact (hello_after ..).trans (by decide)
  · exact (hello_after ..).trans (by decide)

/-- After an argument that hides the password, the password can hide the next one. -/
theorem not_hides_migrate (hcommand : c.command = "MIGRATE") (hfits : width c.lead + 4 < 2 ^ 64)
    (hargument : ∀ password, c.argument password = password) (htrail : 0 < c.trail.length)
    {u : String} (hA : c.lead.map renderBytes = A ++ [u]) (hu : hidesNext u = true) :
    ¬ c.Hides η := by
  refine not_hides_lookalike hfits hargument htrail hA rfl (fun z => ?_) ?_ ?_ ?_
  · rw [hcommand]
    exact migrate_self hu z A _
  · intro i hne hi
    rw [hcommand, sensitive_migrate, sensitive_migrate, getElem?_hole (y := "BBBB") hne,
      getElem?_hole (i := i - 1) (y := "BBBB") (by omega)]
  · rw [hcommand, migrate_after, show hidesNext "AUTH" = true by decide, Bool.or_true]
  · have hempty : (c.trail.map fun _ => "")[0]?.getD "" = "" := by
      rw [getElem?_map, getElem?_eq_getElem htrail, Option.map_some, Option.getD_some]
    rw [hcommand, migrate_after, hempty]
    decide

/-- A password two places after `AUTH2` is stored in the clear. -/
theorem not_hides_migrate2 {keyword : Keyword "AUTH2"}
    (huser : hidesNext (renderBytes user) = false)
    (hfits : width (migrate2 lead keyword user trail).lead + 4 < 2 ^ 64) :
    ¬ (migrate2 lead keyword user trail).Hides η := by
  have hA := map_lead_migrate2 lead keyword user trail
  generalize (lead ++ [keyword.bytes]).map renderBytes = before at hA
  have hlen : (before ++ [renderBytes user]).length = before.length + 1 := by simp
  have hclear : ∀ z, isSensitiveName z = false → redisArgumentIsSensitive "MIGRATE"
      (before ++ [renderBytes user]).length (before ++ [renderBytes user] ++
        z :: trail.map fun _ => "") = false := by
    intro z hz
    have hget : (before ++ [renderBytes user] ++ z :: trail.map fun _ => "")[before.length]? =
        some (renderBytes user) := by
      rw [append_assoc]
      exact getElem?_hole_self
    rw [sensitive_migrate, getElem?_hole_self, Option.getD_some, hz, Bool.false_or, hlen,
      if_neg (Nat.succ_ne_zero _), Nat.add_sub_cancel, hget, Option.getD_some, huser]
  refine not_hides hfits (Utf8.asBytes "A") (Utf8.asBytes "B") (by decide +kernel) (by decide)
    (by decide +kernel : 1 ≤ (rendered (Utf8.asBytes "A")).length)
    (by decide +kernel : 1 ≤ (rendered (Utf8.asBytes "B")).length)
    (by decide +kernel : String.ofList ((rendered (Utf8.asBytes "A")).take 1) = "A")
    (by decide +kernel : String.ofList ((rendered (Utf8.asBytes "B")).take 1) = "B")
    (q := (before ++ [renderBytes user]).length) ?_ ?_
  · intro i hi
    rw [hA]
    refine getElem?_safe_hole (fun h => absurd h hi) fun hne => ?_
    show redisArgumentIsSensitive "MIGRATE" i _ = redisArgumentIsSensitive "MIGRATE" i _
    by_cases hnext : i = (before ++ [renderBytes user]).length + 1 + 0
    · rw [hnext, migrate_after, migrate_after]
      exact congrArg _ (by decide : hidesNext "A" = hidesNext "B")
    · rw [sensitive_migrate, sensitive_migrate, getElem?_hole (y := "B") hne,
        getElem?_hole (i := i - 1) (y := "B") (by omega)]
  · rw [hA, getElem?_safe, getElem?_safe, getElem?_hole_self, getElem?_hole_self]
    show some (if redisArgumentIsSensitive "MIGRATE" _ _ then replacement else "A") ≠
      some (if redisArgumentIsSensitive "MIGRATE" _ _ then replacement else "B")
    rw [Credential.trail, hclear "A" (by decide), hclear "B" (by decide)]
    decide

/-- Passwords are stored alike exactly in the covered commands. -/
theorem hides_iff_covered (c : Credential) (hfits : width c.lead + 4 < 2 ^ 64) :
    c.Hides η ↔ c.covered = true := by
  constructor
  · intro h
    cases c with
    | auth _ _ | acl _ _ _ _ | config _ _ _ _ => rfl
    | hello lead keyword user trail =>
      rw [covered, decide_eq_true_eq]
      by_contra hlong
      exact not_hides_hello (Nat.lt_of_not_le hlong) hfits h
    | migrate lead keyword trail =>
      rw [covered, List.isEmpty_iff]
      by_contra htrail
      have hA : (migrate lead keyword trail).lead.map renderBytes =
          lead.map renderBytes ++ [renderBytes keyword.bytes] := by
        rw [Credential.lead, map_append]
        rfl
      exact not_hides_migrate rfl hfits (fun _ => rfl) (length_pos_iff.mpr htrail) hA
        (hidesNext_keyword (by decide) keyword) h
    | migrate2 lead keyword user trail =>
      cases huser : hidesNext (renderBytes user) with
      | false => exact absurd h (not_hides_migrate2 huser hfits)
      | true =>
        rw [covered, huser, Bool.true_and, List.isEmpty_iff]
        by_contra htrail
        exact not_hides_migrate rfl hfits (fun _ => rfl) (length_pos_iff.mpr htrail)
          (map_lead_migrate2 ..) huser h
  · intro hc password password' hlen name value value' hname hvalue hvalue' maxBody hmax
    have hrendered : (rendered (c.argument password)).length =
        (rendered (c.argument password')).length := by
      rw [renderBytes_eq, renderBytes_eq, String.length_ofList, String.length_ofList] at hlen
      cases c with
      | acl keyword lead rule trail =>
        rw [argument, argument, rendered, rendered, flatMap_cons, flatMap_cons,
          length_append, length_append]
        exact congrArg _ hlen
      | _ => exact hlen
    have hsafe : safe c.command (shown maxBody (c.arguments password)) =
        safe c.command (shown maxBody (c.arguments password')) := by
      rcases shown_cases hrendered maxBody with heq | ⟨k, rest, hrest, hshown, hshown'⟩
      · exact congrArg (safe c.command) heq
      · rw [arguments, arguments, hshown, hshown']
        exact safe_covered hc password password' k hrest
    rw [Store.storedAlike_iff, redact_requestMessage hvalue hmax,
      redact_requestMessage hvalue' hmax, hname, hsafe]
    exact ⟨rfl, rfl⟩

/-- The password of a login with a user name is hidden. -/
theorem login_hides : width [Utf8.asBytes "app"] + 4 < 2 ^ 64 ∧
    (auth [Utf8.asBytes "app"] []).Hides Unit := by
  have hfits : width [Utf8.asBytes "app"] + 4 < 2 ^ 64 := by decide +kernel
  exact ⟨hfits, (hides_iff_covered (auth [Utf8.asBytes "app"] []) hfits).mpr rfl⟩

/-- The client's messages in some bytes. -/
def requestsIn (maxBody : Nat) (bytes : Bytes) : List DecodedMessage :=
  ((RedisDecoder.new maxBody).push .clientToServer bytes).2.messages

/-- A migration to a server where a user has to log in. -/
def migration (password : String) : Bytes :=
  Utf8.asBytes ("MIGRATE cache 6379 key 0 10 AUTH2 app " ++ password)

/-- The password of a migration is stored in the clear. -/
theorem migration_told :
    requestsIn 64 (migration "hunter2\r\n") =
      [requestMessage (.inline (words (migration "hunter2"))) 64] ∧
      requestsIn 64 (migration "letmein\r\n") =
        [requestMessage (.inline (words (migration "letmein"))) 64] ∧
      ¬ Store.StoredAlike Unit (requestMessage (.inline (words (migration "hunter2"))) 64)
        (requestMessage (.inline (words (migration "letmein"))) 64) := by
  refine ⟨by decide +kernel, by decide +kernel, fun h => ?_⟩
  have hsummary := (h (Store.StoreActor.withInspection 0 0 64 false) 0 ⟨0, 0⟩ rfl).1
  exact absurd hsummary (by decide +kernel)

end Credential

end Lens.Redis
