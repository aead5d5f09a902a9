import XmrMiner.Lib.Outcome
import XmrMiner.Util.Hex

/-!
# The login of the miner

The user and the password that the miner logs in with are given by the options `-o`, `-O`, `-u`
and `-p`, together or one alone.  They end up in three variables: `rpc_user2` and `rpc_pass2`,
which the login message contains, and `rpc_userpass2`, which is sent with every request over
HTTP.

An option that gives both sets all three variables.  One that gives the user or the password
alone leaves `rpc_userpass2` as it was, and `main` computes it only if it has not been set.

## Main definitions

* `LoginOption`, `parseLoginArg` — the options, and what they write.
* `mainLogin` — the options with the defaults that `main` adds.
* `Credentials.Consistent` — the variables contain the same user and password.
* `GivenLogin`, `LoginKept` — what an option says of the login; a user and a password given
  together are not replaced by others given alone.

## Main results

* `mainLogin_ne_fault` — no URL is cut at a null pointer.
* `parseLoginArg_credentials`, `foldl_give_alone` — what an option writes, and a run of them that
  give one part alone.
* `mainLogin_consistent_iff` — **when the variables are consistent.**
-/

namespace XmrMiner

open CString Outcome

/-! ### Strings -/

/-- The character `@`. -/
def atSign : Byte := 64

/-- The character `:`. -/
def loginDelim : Byte := 58

/-- The character `/`. -/
def slash : Byte := 47

/-- What ends the scheme of a URL. -/
def schemeEnd : List Byte := ascii "://"

/-- `!strncasecmp(s, t, n)`. -/
def strncaseeq (s t : List Byte) (n : ℕ) : Bool := (s.take n).map tolower == (t.take n).map tolower

/-! ### The options -/

/-- The options that concern the login, with their arguments. -/
inductive LoginOption
  /-- `-o`. -/
  | url (arg : List Byte)
  /-- `-O`. -/
  | userpass (arg : List Byte)
  /-- `-u`. -/
  | user (arg : List Byte)
  /-- `-p`. -/
  | pass (arg : List Byte)
  /-- `--benchmark`, without which there has to be a URL. -/
  | benchmark

/-- Why the program does not go on. -/
inductive ParseStop
  /-- `show_usage_and_exit`. -/
  | usage
  /-- It accesses memory by a null pointer. -/
  | fault
  deriving DecidableEq

/-- The variables with the login. -/
structure Credentials where
  /-- `rpc_userpass2[0]`; none is the null pointer. -/
  rpcUserpass : Option (List Byte)
  /-- `rpc_user2[0]`. -/
  rpcUser : List Byte
  /-- `rpc_pass2[0]`. -/
  rpcPass : List Byte
  deriving DecidableEq

/-- What the options write. -/
structure PoolOptions where
  /-- `opt_benchmark`. -/
  optBenchmark : Bool
  /-- `rpc_url2[0]`. -/
  rpcUrl : Option (List Byte)
  /-- `have_stratum2[0]`. -/
  haveStratum : Bool
  /-- The login. -/
  credentials : Credentials
  deriving DecidableEq

/-- The variables before the options are read. -/
def PoolOptions.initial : PoolOptions := ⟨false, none, false, ⟨none, [], []⟩⟩

/-- The URL that `-o` stores at first. -/
def parseUrl (arg : List Byte) : Except ParseStop (List Byte) :=
  if (strstr arg schemeEnd).isSome then
    if !strncaseeq arg (ascii "http://") 7 && !strncaseeq arg (ascii "https://") 8 &&
        !strncaseeq arg (ascii "stratum+tcp://") 14 then throw .usage
    else return arg
  else if arg = [] || arg.head? = some slash then throw .usage
  else return ascii "http://" ++ arg

/-- `-o` takes what is before the last `@` out of the URL. -/
def cutLogin (url : List Byte) : Except ParseStop (Option (List Byte) × List Byte) :=
  match strrchr url atSign with
  | none => return (none, url)
  | some p =>
    let front := url.take p
    match strstr front schemeEnd with
    | none => throw .fault
    | some i => return (some (front.drop (i + 3)), front.take (i + 3) ++ url.drop (p + 1))

/-- What `-o` does with the part that it has taken out. -/
def Credentials.storeLogin (c : Credentials) (ap : List Byte) : Credentials :=
  match strchr ap loginDelim with
  | some sp => ⟨some ap, ap.take sp, ap.drop (sp + 1)⟩
  | none => { c with rpcUser := ap }

/-- `parse_arg`, for these options. -/
def parseLoginArg (s : PoolOptions) : LoginOption → Except ParseStop PoolOptions
  | .url arg => do
    let url ← parseUrl arg
    let (ap, url) ← cutLogin url
    return { s with
      rpcUrl := some url
      haveStratum := !s.optBenchmark && strncaseeq url (ascii "stratum") 7
      credentials := ap.elim s.credentials s.credentials.storeLogin }
  | .userpass arg =>
    match strchr arg loginDelim with
    | none => throw .usage
    | some p => return { s with credentials := ⟨some arg, arg.take p, arg.drop (p + 1)⟩ }
  | .user arg => return { s with credentials := { s.credentials with rpcUser := arg } }
  | .pass arg => return { s with credentials := { s.credentials with rpcPass := arg } }
  | .benchmark => return { s with optBenchmark := true, haveStratum := false }

/-- `rpc_userpass2[0]` as `main` computes it if it is missing. -/
def Credentials.addUserpass (c : Credentials) : Credentials :=
  match c.rpcUserpass with
  | some _ => c
  | none => { c with rpcUserpass := some (c.rpcUser ++ loginDelim :: c.rpcPass) }

/-- `main`, as far as the login is concerned. -/
def mainLogin (options : List LoginOption) : Except ParseStop PoolOptions := do
  let s ← options.foldlM parseLoginArg .initial
  if !s.optBenchmark && s.rpcUrl.isNone then throw .usage
  return { s with credentials := s.credentials.addUserpass }

/-- The variables contain the same user and password. -/
def Credentials.Consistent (c : Credentials) : Prop :=
  c.rpcUserpass = some (c.rpcUser ++ loginDelim :: c.rpcPass)

/-! ### What is given -/

/-- What an option says of the login. -/
inductive GivenLogin
  /-- A user and a password. -/
  | userpass (user pass : List Byte)
  /-- A user alone. -/
  | user (user : List Byte)
  /-- A password alone. -/
  | pass (pass : List Byte)
  deriving DecidableEq

/-- The login in front of a host. -/
def splitLogin (ap : List Byte) : GivenLogin :=
  match strchr ap loginDelim with
  | some sp => .userpass (ap.take sp) (ap.drop (sp + 1))
  | none => .user ap

/-- The login that an option gives, if any. -/
def LoginOption.login : LoginOption → Option GivenLogin
  | .url arg =>
    match parseUrl arg >>= cutLogin with
    | .ok (ap, _) => ap.map splitLogin
    | .error _ => none
  | .userpass arg => some (splitLogin arg)
  | .user arg => some (.user arg)
  | .pass arg => some (.pass arg)
  | .benchmark => none

/-- Not both are given. -/
def GivenLogin.Alone : GivenLogin → Prop
  | .userpass _ _ => False
  | _ => True

/-- The user, if given alone. -/
def GivenLogin.user? : GivenLogin → Option (List Byte)
  | .user u => some u
  | _ => none

/-- The password, if given alone. -/
def GivenLogin.pass? : GivenLogin → Option (List Byte)
  | .pass p => some p
  | _ => none

/-- The last user given alone. -/
def lastUser (ls : List GivenLogin) : Option (List Byte) := (ls.filterMap GivenLogin.user?).getLast?

/-- The last password given alone. -/
def lastPass (ls : List GivenLogin) : Option (List Byte) := (ls.filterMap GivenLogin.pass?).getLast?

/-- What is given alone repeats the user `u` and the password `p`. -/
def Repeats (u p : List Byte) (ls : List GivenLogin) : Prop :=
  match lastUser ls, lastPass ls with
  | none, none => True
  | some u', none => u' = u
  | none, some p' => p' = p
  | some u', some p' => u' ++ loginDelim :: p' = u ++ loginDelim :: p

/-- What is given alone behind the last user and password given together repeats them. -/
def LoginKept (ls : List GivenLogin) : Prop :=
  ∀ before u p after, ls = before ++ .userpass u p :: after → (∀ l ∈ after, l.Alone) →
    Repeats u p after

/-- The variables behind an option that gives a login. -/
def Credentials.give (c : Credentials) : GivenLogin → Credentials
  | .userpass u p => ⟨some (u ++ loginDelim :: p), u, p⟩
  | .user u => { c with rpcUser := u }
  | .pass p => { c with rpcPass := p }

/-! ### No null pointer -/

/-- What has no letter is compared exactly. -/
theorem eq_of_map_tolower {s t : List Byte} (h : s.map tolower = t)
    (ht : ∀ c ∈ t, c.toNat < 97) : s = t := by
  subst h
  refine (List.map_id s).symm.trans (List.map_congr_left fun c hc => ?_)
  have hlt := ht _ (List.mem_map_of_mem hc)
  unfold tolower at hlt ⊢
  split at hlt
  next hupper =>
    rw [BitVec.toNat_add_of_lt (show c.toNat + 32 < 256 by omega)] at hlt
    change c.toNat + 32 < 97 at hlt
    omega
  next hupper => rw [if_neg hupper]; rfl

/-- There is no `@` before the end of the scheme. -/
def HasScheme (url : List Byte) : Prop :=
  ∃ pre rest, url = pre ++ schemeEnd ++ rest ∧ atSign ∉ pre ++ schemeEnd

/-- What begins with a scheme has one. -/
theorem hasScheme_of_strncaseeq (pre : List Byte) {s : List Byte}
    (h : strncaseeq s (pre ++ schemeEnd) (pre.length + 3) = true)
    (hpre : atSign ∉ pre.map tolower) : HasScheme s := by
  have hend : schemeEnd.map tolower = schemeEnd := by decide
  have hlen : (pre ++ schemeEnd).length = pre.length + 3 := List.length_append
  rw [strncaseeq, beq_iff_eq, List.take_of_length_le hlen.le, List.map_append, hend,
    List.map_eq_append_iff] at h
  obtain ⟨pre', scheme, htake, hpre', hscheme⟩ := h
  obtain rfl := eq_of_map_tolower hscheme (by decide)
  refine ⟨pre', s.drop (pre.length + 3), ?_, ?_⟩
  · rw [← htake, List.take_append_drop]
  · have hnot : atSign ∉ pre' := fun hmem =>
      hpre (hpre' ▸ List.mem_map_of_mem (f := tolower) hmem)
    rw [List.mem_append, not_or]
    exact ⟨hnot, by decide⟩

/-- A computation that no null pointer ends. -/
abbrev NoNull {α : Type} (P : α → Prop) : Except ParseStop α → Prop := Yields (· = .usage) P

/-- **The URL has a scheme.** -/
theorem parseUrl_noNull (arg : List Byte) : NoNull HasScheme (parseUrl arg) := by
  unfold parseUrl
  split
  · split
    next => rfl
    next hscheme =>
      have hsome : strncaseeq arg (ascii "http://") 7 = true ∨
          strncaseeq arg (ascii "https://") 8 = true ∨
          strncaseeq arg (ascii "stratum+tcp://") 14 = true := by
        by_contra hnone
        simp only [not_or, Bool.not_eq_true] at hnone
        exact hscheme (by rw [hnone.1, hnone.2.1, hnone.2.2]; rfl)
      rcases hsome with hhttp | hhttps | hstratum
      · exact hasScheme_of_strncaseeq (ascii "http") hhttp (by decide)
      · exact hasScheme_of_strncaseeq (ascii "https") hhttps (by decide)
      · exact hasScheme_of_strncaseeq (ascii "stratum+tcp") hstratum (by decide)
  · split
    · rfl
    · exact ⟨ascii "http", arg, rfl, by decide⟩

/-- The part before the last `@` still has the end of the scheme. -/
theorem cutLogin_noNull {url : List Byte} (h : HasScheme url) :
    NoNull (fun _ => True) (cutLogin url) := by
  obtain ⟨pre, rest, hurl, hat⟩ := h
  unfold cutLogin
  cases hp : strrchr url atSign with
  | none => trivial
  | some p =>
    have hget := strrchr_eq_some hp
    have hle : (pre ++ schemeEnd).length ≤ p := by
      by_contra hlt
      rw [hurl, List.getElem?_append_left (by omega)] at hget
      exact hat (List.mem_of_getElem? hget)
    have hinfix : schemeEnd <:+: url.take p :=
      ⟨pre, rest.take (p - (pre ++ schemeEnd).length), by
        rw [hurl, List.take_append, List.take_of_length_le hle]⟩
    obtain ⟨i, hi⟩ := Option.isSome_iff_exists.mp (strstr_isSome_iff.mpr hinfix)
    dsimp only
    rw [hi]
    trivial

theorem parseLoginArg_noNull (s : PoolOptions) (o : LoginOption) :
    NoNull (fun _ => True) (parseLoginArg s o) := by
  cases o with
  | url arg =>
    exact (parseUrl_noNull arg).bind fun url hurl => (cutLogin_noNull hurl).bind fun _ _ => trivial
  | userpass arg =>
    rw [parseLoginArg]
    split
    · rfl
    · trivial
  | user arg => trivial
  | pass arg => trivial
  | benchmark => trivial

/-- **No URL is cut at a null pointer.** -/
theorem mainLogin_ne_fault (options : List LoginOption) : mainLogin options ≠ .error .fault := by
  have hparse : NoNull (fun _ => True) (options.foldlM parseLoginArg .initial) :=
    Yields.foldlM (fun s o _ => parseLoginArg_noNull s o) options trivial
  have hmain : NoNull (fun _ => True) (mainLogin options) := by
    refine hparse.bind fun s _ => ?_
    dsimp only
    split
    · rfl
    · trivial
  exact hmain.ne_error (by decide)

/-! ### What the options write -/

theorem storeLogin_eq (c : Credentials) (ap : List Byte) :
    c.storeLogin ap = c.give (splitLogin ap) := by
  unfold Credentials.storeLogin splitLogin
  cases hsp : strchr ap loginDelim with
  | none => rfl
  | some sp => simp only [Credentials.give, strchr_eq_some hsp]

/-- **One option.** -/
theorem parseLoginArg_credentials {s s' : PoolOptions} {o : LoginOption}
    (h : parseLoginArg s o = .ok s') :
    s'.credentials = o.login.elim s.credentials s.credentials.give := by
  cases o with
  | url arg =>
    obtain ⟨url, hurl, h⟩ := exists_of_bind h
    obtain ⟨⟨ap, url'⟩, hcut, h⟩ := exists_of_bind h
    obtain rfl := Except.ok.inj h
    have hlogin : (LoginOption.url arg).login = ap.map splitLogin := by
      have hbind : parseUrl arg >>= cutLogin = .ok (ap, url') := by
        rw [hurl]
        exact hcut
      rw [LoginOption.login, hbind]
    rw [hlogin]
    cases ap with
    | none => rfl
    | some ap => exact storeLogin_eq _ ap
  | userpass arg =>
    rw [parseLoginArg] at h
    rw [LoginOption.login, Option.elim_some, ← storeLogin_eq, Credentials.storeLogin]
    cases hp : strchr arg loginDelim with
    | none =>
      rw [hp] at h
      cases h
    | some p =>
      rw [hp] at h
      obtain rfl := Except.ok.inj h
      rfl
  | user arg =>
    obtain rfl := Except.ok.inj h
    rfl
  | pass arg =>
    obtain rfl := Except.ok.inj h
    rfl
  | benchmark =>
    obtain rfl := Except.ok.inj h
    rfl

/-- All the options. -/
theorem parseLoginArgs_credentials {options : List LoginOption} {s s' : PoolOptions}
    (h : options.foldlM parseLoginArg s = .ok s') :
    s'.credentials =
      (options.filterMap LoginOption.login).foldl Credentials.give s.credentials := by
  induction options generalizing s with
  | nil =>
    obtain rfl := Except.ok.inj h
    rfl
  | cons o options ih =>
    rw [List.foldlM_cons] at h
    obtain ⟨s₁, hs₁, h⟩ := exists_of_bind h
    rw [ih h, parseLoginArg_credentials hs₁, List.filterMap_cons]
    cases o.login with
    | none => rfl
    | some l => rfl

/-- **Without both given together**, the last ones given alone remain. -/
theorem foldl_give_alone {ls : List GivenLogin} (h : ∀ l ∈ ls, l.Alone) (c : Credentials) :
    ls.foldl Credentials.give c =
      ⟨c.rpcUserpass, (lastUser ls).getD c.rpcUser, (lastPass ls).getD c.rpcPass⟩ := by
  induction ls generalizing c with
  | nil => rfl
  | cons l ls ih =>
    rw [List.foldl_cons, ih fun l hl => h l (List.mem_cons_of_mem _ hl)]
    cases l with
    | userpass u p => exact absurd (h _ List.mem_cons_self) id
    | user u => simp [Credentials.give, lastUser, lastPass, GivenLogin.user?, GivenLogin.pass?,
        List.getLast?_cons]
    | pass p => simp [Credentials.give, lastUser, lastPass, GivenLogin.user?, GivenLogin.pass?,
        List.getLast?_cons]

/-! ### Consistency -/

/-- Either nothing is given together, or there is a last such option. -/
theorem alone_or_exists_last (ls : List GivenLogin) :
    (∀ l ∈ ls, l.Alone) ∨
      ∃ before u p after, ls = before ++ .userpass u p :: after ∧ ∀ l ∈ after, l.Alone := by
  induction ls with
  | nil => exact Or.inl (by simp)
  | cons l ls ih =>
    rcases ih with halone | ⟨before, u, p, after, rfl, halone⟩
    · cases l with
      | userpass u p => exact Or.inr ⟨[], u, p, ls, rfl, halone⟩
      | user u => exact Or.inl (List.forall_mem_cons.mpr ⟨trivial, halone⟩)
      | pass p => exact Or.inl (List.forall_mem_cons.mpr ⟨trivial, halone⟩)
    · exact Or.inr ⟨l :: before, u, p, after, rfl, halone⟩

/-- Behind a user and a password given together. -/
theorem consistent_iff_repeats {after : List GivenLogin} (h : ∀ l ∈ after, l.Alone)
    (u p : List Byte) :
    (after.foldl Credentials.give ⟨some (u ++ loginDelim :: p), u, p⟩).addUserpass.Consistent ↔
      Repeats u p after := by
  rw [foldl_give_alone h]
  simp only [Credentials.addUserpass, Credentials.Consistent, Repeats, Option.some.injEq]
  cases lastUser after with
  | none =>
    cases lastPass after with
    | none => simp
    | some p' => simp [eq_comm]
  | some u' =>
    cases lastPass after with
    | none => simp [eq_comm]
    | some p' => simp [eq_comm]

/-- **The variables contain the same user and password** if and only if what is given alone
behind the last user and password given together repeats them. -/
theorem mainLogin_consistent_iff {options : List LoginOption} {s : PoolOptions}
    (h : mainLogin options = .ok s) :
    s.credentials.Consistent ↔ LoginKept (options.filterMap LoginOption.login) := by
  obtain ⟨s₁, hs₁, h⟩ := exists_of_bind h
  dsimp only at h
  split at h
  · cases h
  obtain rfl := Except.ok.inj h
  have hcred := parseLoginArgs_credentials hs₁
  dsimp only
  rw [hcred]
  refine ⟨fun hc before u p after heq halone => ?_, fun hkept => ?_⟩
  · rw [heq, List.foldl_append, List.foldl_cons] at hc
    exact (consistent_iff_repeats halone u p).mp hc
  · rcases alone_or_exists_last (options.filterMap LoginOption.login) with
      halone | ⟨before, u, p, after, heq, halone⟩
    · rw [foldl_give_alone halone]
      rfl
    · rw [heq, List.foldl_append, List.foldl_cons]
      exact (consistent_iff_repeats halone u p).mpr (hkept before u p after heq halone)

/-- The user and the password in front of the host, and the same user again. -/
def repeatedUser : List LoginOption :=
  [.url (ascii "stratum+tcp://a:b@pool:3333"), .user (ascii "a")]

/-- What it comes to. -/
def repeatedUserOptions : PoolOptions :=
  ⟨false, some (ascii "stratum+tcp://pool:3333"), true,
    ⟨some (ascii "a:b"), ascii "a", ascii "b"⟩⟩

theorem mainLogin_consistent_iff_repeated :
    repeatedUserOptions.credentials.Consistent ↔
      LoginKept (repeatedUser.filterMap LoginOption.login) :=
  mainLogin_consistent_iff (show mainLogin repeatedUser = .ok repeatedUserOptions by
    decide +kernel)

/-- A user and a password together, and then another user. -/
theorem late_user_inconsistent : ¬ ∀ (options : List LoginOption) (s : PoolOptions),
    mainLogin options = .ok s → s.credentials.Consistent := by
  intro h
  have hrun : mainLogin [.url (ascii "stratum+tcp://pool:3333"), .userpass (ascii "a:b"),
      .user (ascii "c")] = .ok ⟨false, some (ascii "stratum+tcp://pool:3333"), true,
        ⟨some (ascii "a:b"), ascii "c", ascii "b"⟩⟩ := by decide +kernel
  exact absurd (h _ _ hrun) (by unfold Credentials.Consistent; decide +kernel)

end XmrMiner
