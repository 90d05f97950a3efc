/-
# Web.AccessToken -- the tokens that open a document without a session

`AccessTokenService` keeps a public key and, for each token, a list of three numbers in Redis. A token
is the digest of the public key with the three numbers written into it, so a token that is issued
again stands for the same triple (`token_injective`); its list then holds the triple several times.
Each of the two calls is modelled by its requests for a connection and its Redis commands, which steps of
other calls and expiries may come between. `standsFor` records what a token was issued for, until it
expires. `active` counts the connections that are out: a method that calls another one keeps its own
meanwhile, and one that raises never returns it.

`parseAccessToken` first asks whether the token exists and then reads its list. `answers_right` says
that it answers what the token stands for, in every run in which no token expires between the two and the
pool has a connection for every such call. -/
import Clb.Document.Decimal
import Clb.Lib.Base64
import Clb.Lib.Machine

set_option autoImplicit false

namespace Clb.Web

open Clb.Lib

/-- The text of an `ObjectId`: 24 characters. -/
structure PublicKey where
  chars : Text
  length_eq : chars.length = 24

/-- Three `int` values. -/
structure Grant where
  pair : DPair
  appid_fits : IsInt pair.appid
  docid_fits : IsInt pair.docid
  version_fits : IsInt pair.version

/-- `appid+"#"+docid+"#"+version`. -/
def raw (p : DPair) : Text :=
  decimalText p.appid ++ '#' :: (decimalText p.docid ++ '#' :: decimalText p.version)

/-- `getBytes` of an ASCII text. -/
def getBytes (t : Text) : List UInt8 := t.map fun c => UInt8.ofNat c.toNat

/-- The text that `generateToken` digests; the eleventh character of the key is left out. -/
def secondLevel (key : PublicKey) (p : DPair) : Text :=
  key.chars.take 10 ++ (Base64.encodeChunked (getBytes (raw p)) ++ key.chars.drop 11)

/-- What `rpush` appends. -/
def values (p : DPair) : List Text :=
  [decimalText p.appid, decimalText p.docid, decimalText p.version]

/-- `Integer.parseInt(list.get(i))`. -/
def number (list : List Text) (i : Nat) : Except Fault Int :=
  match list[i]? with
  | none => .error .indexOutOfBounds
  | some t =>
    match parseInt t with
    | none => .error .illegalArgument
    | some n => .ok n

/-- The `DPair` that `parseAccessToken` makes of the list it read. -/
def readPair (list : List Text) : Except Fault (Option DPair) := do
  let appid ← number list 0
  let docid ← number list 1
  let version ← number list 2
  return some ⟨appid, docid, version⟩

/-- An answer of `parseAccessToken`, with what the token stood for when it was looked up. -/
structure Answer where
  token : Text
  stoodFor : Option DPair
  result : Except Fault (Option DPair)

/-- A call of `getAccessToken`: with a connection, in `getPublicKey`, where the key is missing, in
`refreshPublicKey`, with a key, and in `add`. -/
inductive Issuing where
  | idle
  | entered
  | asking
  | absent
  | refreshing
  | keyed (key : PublicKey)
  | adding (key : PublicKey)

/-- What the call is in after its next `getResource`. -/
def Issuing.connected : Issuing → Option Issuing
  | .idle => some .entered
  | .entered => some .asking
  | .absent => some .refreshing
  | .keyed key => some (.adding key)
  | .asking | .refreshing | .adding _ => none

/-- A call of `parseAccessToken`: with a connection, or with a token that exists. -/
inductive Parsing where
  | opened (token : Text)
  | found (token : Text) (stoodFor : Option DPair)

/-- The Redis keys, an absent list being the empty one; the connections that are out; the calls of each
caller; and the records of the results. -/
structure Tokens where
  publicKey : Option PublicKey
  lists : Text → List Text
  active : Int
  issuing : Nat → Issuing
  parsing : Nat → Option Parsing
  standsFor : Text → Option DPair
  answers : List Answer

def Tokens.empty : Tokens where
  publicKey := none
  lists := fun _ => []
  active := 0
  issuing := fun _ => .idle
  parsing := fun _ => none
  standsFor := fun _ => none
  answers := []

/-- The steps of the calls, and the expiries. `connect` is a `getResource` of `getAccessToken`, `parse`
that of `parseAccessToken`; the others are commands sent to Redis, with what is returned after them. -/
inductive Command where
  | connect (caller : Nat)
  | get (caller : Nat)
  | set (caller : Nat) (fresh : PublicKey)
  | rpush (caller : Nat) (grant : Grant)
  | expirePublicKey
  | expireToken (token : Text)
  | parse (caller : Nat) (token : Text)
  | lookUp (caller : Nat)
  | lrange (caller : Nat)

/-- `setMaxActive`. -/
def maxActive : Int := 100

section Service

variable (md5Hex : Text → Text)

/-- `generateToken`, up to the storing. -/
def token (key : PublicKey) (p : DPair) : Text := md5Hex (secondLevel key p)

namespace Tokens

def issue (caller : Nat) (stage : Issuing) (active : Int) (s : Tokens) : Tokens :=
  { s with active, issuing := Function.update s.issuing caller stage }

/-- A `getResource` of `getAccessToken`. Where the pool is exhausted it raises after `maxWait`, and what
the call holds stays out: nothing is returned in a `finally`. -/
def connect (caller : Nat) (s : Tokens) : Tokens :=
  match (s.issuing caller).connected with
  | none => s
  | some next =>
    if s.active < maxActive then s.issue caller next (s.active + 1) else s.issue caller .idle s.active

/-- `get` of `getPublicKey`. -/
def get (caller : Nat) (s : Tokens) : Tokens :=
  match s.issuing caller, s.publicKey with
  | .asking, some key => s.issue caller (.keyed key) (s.active - 1)
  | .asking, none => s.issue caller .absent s.active
  | _, _ => s

/-- `set` and `expire` of `refreshPublicKey`. -/
def set (caller : Nat) (fresh : PublicKey) (s : Tokens) : Tokens :=
  match s.issuing caller with
  | .refreshing => { s.issue caller (.keyed fresh) (s.active - 2) with publicKey := some fresh }
  | _ => s

/-- `rpush` and `expire` of `add`, the end of `getAccessToken`. -/
def rpush (caller : Nat) (grant : Grant) (s : Tokens) : Tokens :=
  match s.issuing caller with
  | .adding key =>
    let t := token md5Hex key grant.pair
    { s.issue caller .idle (s.active - 2) with
      lists := Function.update s.lists t (s.lists t ++ values grant.pair)
      standsFor := Function.update s.standsFor t (some grant.pair) }
  | _ => s

def expireToken (t : Text) (s : Tokens) : Tokens :=
  { s with lists := Function.update s.lists t [], standsFor := Function.update s.standsFor t none }

/-- The `getResource` of `parseAccessToken`. -/
def parse (caller : Nat) (t : Text) (s : Tokens) : Tokens :=
  match s.parsing caller with
  | some _ => s
  | none =>
    if s.active < maxActive then
      { s with
        active := s.active + 1
        parsing := Function.update s.parsing caller (some (.opened t)) }
    else
      { s with answers := s.answers ++ [⟨t, s.standsFor t, .error .jedisConnection⟩] }

/-- `exists`, the first command of `parseAccessToken`. -/
def lookUp (caller : Nat) (s : Tokens) : Tokens :=
  match s.parsing caller with
  | some (.opened t) =>
    if s.lists t = [] then
      { s with
        active := s.active - 1
        parsing := Function.update s.parsing caller none
        answers := s.answers ++ [⟨t, s.standsFor t, .ok none⟩] }
    else
      { s with parsing := Function.update s.parsing caller (some (.found t (s.standsFor t))) }
  | _ => s

/-- `lrange(key, 0, 2)` and what `parseAccessToken` makes of it. -/
def lrange (caller : Nat) (s : Tokens) : Tokens :=
  match s.parsing caller with
  | some (.found t stoodFor) =>
    let result := readPair ((s.lists t).take 3)
    { s with
      active := if result.isOk then s.active - 1 else s.active
      parsing := Function.update s.parsing caller none
      answers := s.answers ++ [⟨t, stoodFor, result⟩] }
  | _ => s

end Tokens

def execute (command : Command) (s : Tokens) : Tokens :=
  match command with
  | .connect caller => s.connect caller
  | .get caller => s.get caller
  | .set caller fresh => s.set caller fresh
  | .rpush caller grant => s.rpush md5Hex caller grant
  | .expirePublicKey => { s with publicKey := none }
  | .expireToken t => s.expireToken t
  | .parse caller t => s.parse caller t
  | .lookUp caller => s.lookUp caller
  | .lrange caller => s.lrange caller

end Service

/-! ## A token determines its triple -/

theorem hash_not_mem_decimalText (n : Int) : '#' ∉ decimalText n := by
  intro inside
  rcases mem_decimalText inside with minus | digit
  · exact absurd minus (by decide)
  · exact absurd digit (by decide)

theorem raw_injective {g g' : Grant} (same : raw g.pair = raw g'.pair) : g.pair = g'.pair := by
  obtain ⟨appid, rest⟩ := append_sep_inj (hash_not_mem_decimalText _) (hash_not_mem_decimalText _) same
  obtain ⟨docid, version⟩ :=
    append_sep_inj (hash_not_mem_decimalText _) (hash_not_mem_decimalText _) rest
  have appid := decimalText_injective g.appid_fits g'.appid_fits appid
  have docid := decimalText_injective g.docid_fits g'.docid_fits docid
  have version := decimalText_injective g.version_fits g'.version_fits version
  rcases h : g.pair with ⟨a, d, v⟩
  rcases h' : g'.pair with ⟨a', d', v'⟩
  simp only [h, h'] at appid docid version
  rw [appid, docid, version]

theorem toNat_of_mem_decimalText {n : Int} {c : Char} (member : c ∈ decimalText n) :
    c.toNat < 128 := by
  rcases mem_decimalText member with rfl | digit
  · decide
  · simp only [Char.isDigit, Bool.and_eq_true, decide_eq_true_eq] at digit
    have high : c.val.toNat ≤ 57 := UInt32.le_iff_toNat_le.mp digit.2
    exact Nat.lt_of_le_of_lt high (by decide)

theorem toNat_of_mem_raw {p : DPair} {c : Char} (member : c ∈ raw p) : c.toNat < 128 := by
  simp only [raw, List.mem_append, List.mem_cons] at member
  rcases member with inside | rfl | inside | rfl | inside
  · exact toNat_of_mem_decimalText inside
  · decide
  · exact toNat_of_mem_decimalText inside
  · decide
  · exact toNat_of_mem_decimalText inside

theorem getBytes_injective {t t' : Text} (ascii : ∀ c ∈ t, c.toNat < 128)
    (ascii' : ∀ c ∈ t', c.toNat < 128) (same : getBytes t = getBytes t') : t = t' := by
  have back : ∀ {t : Text}, (∀ c ∈ t, c.toNat < 128) →
      (getBytes t).map (fun b => Char.ofNat b.toNat) = t := by
    intro t ascii
    unfold getBytes
    rw [List.map_map]
    conv_rhs => rw [← List.map_id t]
    refine List.map_congr_left fun c inside => ?_
    have small := ascii c inside
    change Char.ofNat (UInt8.ofNat c.toNat).toNat = c
    rw [UInt8.toNat_ofNat_of_lt' (Nat.lt_trans small (by decide)), Char.ofNat_toNat]
  rw [← back ascii, same, back ascii']

theorem getBytes_raw_ne_nil (p : DPair) : getBytes (raw p) ≠ [] := by
  simp [getBytes, raw]

/-- The ten characters before and the thirteen after the written-in triple are of fixed length. -/
theorem secondLevel_injective {key key' : PublicKey} {g g' : Grant}
    (same : secondLevel key g.pair = secondLevel key' g'.pair) : g.pair = g'.pair := by
  have length := key.length_eq
  have length' := key'.length_eq
  unfold secondLevel at same
  obtain ⟨-, rest⟩ := List.append_inj same (by simp [length, length'])
  obtain ⟨middle, -⟩ := List.append_inj' rest (by simp [length, length'])
  refine raw_injective (getBytes_injective (fun _ => toNat_of_mem_raw) (fun _ => toNat_of_mem_raw) ?_)
  exact Base64.encodeChunked_injective (getBytes_raw_ne_nil _) (getBytes_raw_ne_nil _) middle

section Injective

variable {md5Hex : Text → Text} (injective : Function.Injective md5Hex)

include injective

theorem token_injective {key key' : PublicKey} {g g' : Grant}
    (same : token md5Hex key g.pair = token md5Hex key' g'.pair) : g.pair = g'.pair :=
  secondLevel_injective (injective same)

end Injective

/-! ## What the lists hold -/

theorem number_values (g : Grant) (rest : List Text) :
    number (values g.pair ++ rest) 0 = .ok g.pair.appid ∧
      number (values g.pair ++ rest) 1 = .ok g.pair.docid ∧
      number (values g.pair ++ rest) 2 = .ok g.pair.version := by
  simp [number, values, parseInt_decimalText g.appid_fits, parseInt_decimalText g.docid_fits,
    parseInt_decimalText g.version_fits]

/-- The first three elements of a list that begins with a triple are read as that triple. -/
theorem readPair_values (g : Grant) (rest : List Text) :
    readPair ((values g.pair ++ rest).take 3) = .ok (some g.pair) := by
  have firstThree : (values g.pair ++ rest).take 3 = values g.pair ++ [] := by simp [values]
  obtain ⟨appid, docid, version⟩ := number_values g []
  rw [firstThree]
  unfold readPair
  rw [appid, docid, version]
  rfl

section Runs

variable (md5Hex : Text → Text)

/-- The list of a token holds the triple it stands for, once or several times. -/
def Listed (t : Text) (list : List Text) (stands : Option DPair) : Prop :=
  (list = [] ∧ stands = none) ∨
    ∃ (key : PublicKey) (g : Grant) (rest : List Text),
      t = token md5Hex key g.pair ∧ list = values g.pair ++ rest ∧ stands = some g.pair

/-- What holds in every run: every list holds the triple of its token, and a token that was found had
been issued. -/
structure Sound (s : Tokens) : Prop where
  listed : ∀ t, Listed md5Hex t (s.lists t) (s.standsFor t)
  found : ∀ caller t stoodFor, s.parsing caller = some (.found t stoodFor) →
    ∃ (key : PublicKey) (g : Grant), t = token md5Hex key g.pair ∧ stoodFor = some g.pair

/-- No token expires while a call stands between its two commands for it, and the pool has a connection
for a call that parses one. -/
def Undisturbed : Command → Tokens → Prop
  | .expireToken t, s => ∀ caller stoodFor, s.parsing caller ≠ some (.found t stoodFor)
  | .parse _ _, s => s.active < maxActive
  | _, _ => True

/-- What holds in the undisturbed runs. -/
structure Kept (s : Tokens) : Prop where
  present : ∀ caller t stoodFor, s.parsing caller = some (.found t stoodFor) → s.lists t ≠ []
  right : ∀ a ∈ s.answers, a.result = .ok a.stoodFor

variable {md5Hex}

theorem Listed.empty (t : Text) : Listed md5Hex t [] none := .inl ⟨rfl, rfl⟩

theorem Sound.empty : Sound md5Hex Tokens.empty where
  listed t := Listed.empty t
  found _ _ _ parsing := nomatch parsing

theorem Kept.empty : Kept Tokens.empty where
  present _ _ _ parsing := nomatch parsing
  right _ member := nomatch member

/-- A call that has found a token had found it before, or is the one that moved. -/
theorem found_of_update {parsing : Nat → Option Parsing} {caller caller' : Nat} {call : Option Parsing}
    {t : Text} {stoodFor : Option DPair}
    (found : Function.update parsing caller call caller' = some (.found t stoodFor)) :
    parsing caller' = some (.found t stoodFor) ∨ call = some (.found t stoodFor) := by
  by_cases same : caller' = caller
  · subst same
    rw [Function.update_self] at found
    exact .inr found
  · rw [Function.update_of_ne same] at found
    exact .inl found

variable {s : Tokens}

/-- The two states have the same tokens and the same calls that parse one. -/
def SameTokens (s s' : Tokens) : Prop :=
  ∃ publicKey active issuing, s' = { s with publicKey, active, issuing }

theorem sameTokens_connect (caller : Nat) : SameTokens s (s.connect caller) := by
  unfold Tokens.connect
  split
  · exact ⟨_, _, _, rfl⟩
  · split <;> exact ⟨_, _, _, rfl⟩

theorem sameTokens_get (caller : Nat) : SameTokens s (s.get caller) := by
  unfold Tokens.get
  split <;> exact ⟨_, _, _, rfl⟩

theorem sameTokens_set (caller : Nat) (fresh : PublicKey) : SameTokens s (s.set caller fresh) := by
  unfold Tokens.set
  split <;> exact ⟨_, _, _, rfl⟩

theorem Sound.of_same {s' : Tokens} (sound : Sound md5Hex s) (same : SameTokens s s') :
    Sound md5Hex s' := by
  obtain ⟨_, _, _, rfl⟩ := same
  exact ⟨sound.listed, sound.found⟩

theorem Kept.of_same {s' : Tokens} (kept : Kept s) (same : SameTokens s s') : Kept s' := by
  obtain ⟨_, _, _, rfl⟩ := same
  exact ⟨kept.present, kept.right⟩

theorem Sound.lookUp (sound : Sound md5Hex s) (caller : Nat) : Sound md5Hex (s.lookUp caller) := by
  unfold Tokens.lookUp
  split
  · rename_i t _
    split
    · exact ⟨sound.listed, fun caller' t' stoodFor found =>
        sound.found caller' t' stoodFor ((found_of_update found).resolve_right nofun)⟩
    · rename_i absent
      refine ⟨sound.listed, fun caller' t' stoodFor found => ?_⟩
      rcases found_of_update found with old | new
      · exact sound.found caller' t' stoodFor old
      · obtain ⟨rfl, rfl⟩ := Parsing.found.inj (Option.some.inj new)
        rcases sound.listed t with ⟨nothing, -⟩ | ⟨key, g, -, issued, -, stands⟩
        · exact absurd nothing absent
        · exact ⟨key, g, issued, stands⟩
  · exact sound

theorem Kept.lookUp (kept : Kept s) (sound : Sound md5Hex s) (caller : Nat) : Kept (s.lookUp caller) := by
  unfold Tokens.lookUp
  split
  · rename_i t _
    split
    · rename_i absent
      refine ⟨fun caller' t' stoodFor found =>
        kept.present caller' t' stoodFor ((found_of_update found).resolve_right nofun),
        List.forall_mem_append.mpr ⟨kept.right, ?_⟩⟩
      rcases sound.listed t with ⟨-, nothing⟩ | ⟨-, g, rest, -, list, -⟩
      · simp [nothing]
      · rw [list] at absent
        simp [values] at absent
    · rename_i absent
      refine ⟨fun caller' t' stoodFor found => ?_, kept.right⟩
      rcases found_of_update found with old | new
      · exact kept.present caller' t' stoodFor old
      · obtain ⟨rfl, -⟩ := Parsing.found.inj (Option.some.inj new)
        exact absent
  · exact kept

variable (injective : Function.Injective md5Hex)

include injective

/-- Issuing a token again appends the same triple. -/
theorem Listed.append {key : PublicKey} {g : Grant} {list : List Text} {stands : Option DPair}
    (listed : Listed md5Hex (token md5Hex key g.pair) list stands) :
    Listed md5Hex (token md5Hex key g.pair) (list ++ values g.pair) (some g.pair) := by
  rcases listed with ⟨rfl, -⟩ | ⟨key', g', rest, same, rfl, -⟩
  · exact .inr ⟨key, g, [], rfl, by simp, rfl⟩
  · have equal := token_injective injective same
    exact .inr ⟨key', g', rest ++ values g.pair, same, by rw [List.append_assoc], by rw [equal]⟩

theorem Sound.rpush (sound : Sound md5Hex s) (caller : Nat) (g : Grant) :
    Sound md5Hex (s.rpush md5Hex caller g) := by
  unfold Tokens.rpush
  split
  · rename_i key _
    refine ⟨fun t => ?_, sound.found⟩
    by_cases same : t = token md5Hex key g.pair
    · subst same
      simpa using (sound.listed _).append injective
    · simpa [same] using sound.listed t
  · exact sound

/-- **Every command keeps the lists sound.** -/
theorem execute_sound (command : Command) (sound : Sound md5Hex s) :
    Sound md5Hex (execute md5Hex command s) := by
  cases command with
  | connect caller => exact sound.of_same (sameTokens_connect caller)
  | get caller => exact sound.of_same (sameTokens_get caller)
  | set caller fresh => exact sound.of_same (sameTokens_set caller fresh)
  | rpush caller g => exact sound.rpush injective caller g
  | expirePublicKey => exact ⟨sound.listed, sound.found⟩
  | expireToken t =>
    refine ⟨fun t' => ?_, sound.found⟩
    change Listed md5Hex t' (Function.update s.lists t [] t') (Function.update s.standsFor t none t')
    by_cases same : t' = t
    · subst same
      simpa using Listed.empty t'
    · simpa [same] using sound.listed t'
  | parse caller t =>
    change Sound md5Hex (s.parse caller t)
    unfold Tokens.parse
    split
    · exact sound
    · split
      · exact ⟨sound.listed, fun caller' t' stoodFor found =>
          sound.found caller' t' stoodFor ((found_of_update found).resolve_right nofun)⟩
      · exact ⟨sound.listed, sound.found⟩
  | lookUp caller => exact sound.lookUp caller
  | lrange caller =>
    change Sound md5Hex (s.lrange caller)
    unfold Tokens.lrange
    split
    · exact ⟨sound.listed, fun caller' t' stoodFor found =>
        sound.found caller' t' stoodFor ((found_of_update found).resolve_right nofun)⟩
    · exact sound

/-- A token that was found and is still there is read as what it stood for. -/
theorem Sound.readPair_eq (sound : Sound md5Hex s) {caller : Nat} {t : Text}
    {stoodFor : Option DPair} (parsing : s.parsing caller = some (.found t stoodFor))
    (present : s.lists t ≠ []) : readPair ((s.lists t).take 3) = .ok stoodFor := by
  obtain ⟨key, g, issued, rfl⟩ := sound.found caller t stoodFor parsing
  rcases sound.listed t with ⟨nothing, -⟩ | ⟨key', g', rest, issued', list, -⟩
  · exact absurd nothing present
  · have equal := token_injective injective (issued.symm.trans issued')
    rw [list, readPair_values, equal]

/-- **An undisturbed step keeps every answer right.** -/
theorem execute_kept (command : Command) (admitted : Undisturbed command s)
    (sound : Sound md5Hex s) (kept : Kept s) : Kept (execute md5Hex command s) := by
  cases command with
  | connect caller => exact kept.of_same (sameTokens_connect caller)
  | get caller => exact kept.of_same (sameTokens_get caller)
  | set caller fresh => exact kept.of_same (sameTokens_set caller fresh)
  | rpush caller g =>
    change Kept (s.rpush md5Hex caller g)
    unfold Tokens.rpush
    split
    · rename_i key _
      refine ⟨fun caller' t stoodFor found => ?_, kept.right⟩
      by_cases same : t = token md5Hex key g.pair
      · subst same
        simp [values]
      · simpa [same] using kept.present caller' t stoodFor found
    · exact kept
  | expirePublicKey => exact ⟨kept.present, kept.right⟩
  | expireToken t =>
    refine ⟨fun caller t' stoodFor found => ?_, kept.right⟩
    have other : t' ≠ t := by
      rintro rfl
      exact admitted caller stoodFor found
    change Function.update s.lists t [] t' ≠ []
    rw [Function.update_of_ne other]
    exact kept.present caller t' stoodFor found
  | parse caller t =>
    change Kept (s.parse caller t)
    unfold Tokens.parse
    split
    · exact kept
    · have connected : s.active < maxActive := admitted
      rw [if_pos connected]
      exact ⟨fun caller' t' stoodFor found =>
        kept.present caller' t' stoodFor ((found_of_update found).resolve_right nofun), kept.right⟩
  | lookUp caller => exact kept.lookUp sound caller
  | lrange caller =>
    change Kept (s.lrange caller)
    unfold Tokens.lrange
    split
    · rename_i t stoodFor parsing
      refine ⟨fun caller' t' stoodFor' found =>
        kept.present caller' t' stoodFor' ((found_of_update found).resolve_right nofun),
        List.forall_mem_append.mpr ⟨kept.right, ?_⟩⟩
      have present := kept.present caller t stoodFor parsing
      simp [sound.readPair_eq injective parsing present]
    · exact kept

/-- **Tokens open exactly what they were issued for**, in the runs in which no token expires between
the two commands of a call that parses it and no such call finds the pool exhausted. -/
theorem answers_right (run : Reaches (execute md5Hex) Undisturbed Tokens.empty s) :
    ∀ a ∈ s.answers, a.result = .ok a.stoodFor := by
  have both := @Reaches.invariant _ _ _ _ _ _ (fun s => Sound md5Hex s ∧ Kept s) run
    ⟨Sound.empty, Kept.empty⟩ fun command s admitted inv =>
      ⟨execute_sound injective command inv.1,
        execute_kept injective command admitted inv.1 inv.2⟩
  exact both.2.right

end Runs

/-! ## Three runs -/

def someKey : PublicKey := ⟨"0123456789abcdef01234567".toList, by decide⟩

def someGrant : Grant := ⟨⟨1, 2, 3⟩, by decide, by decide, by decide⟩

def someToken : Text := token id someKey someGrant.pair

/-- A token is issued with a new public key. -/
def issued : List Command :=
  [.connect 0, .connect 0, .get 0, .connect 0, .set 0 someKey, .connect 0, .rpush 0 someGrant]

/-- The token is parsed, with another step between the two commands. -/
def parsed (between : Command) : List Command :=
  issued ++ [.parse 1 someToken, .lookUp 1, between, .lrange 1]

def afterCommands (commands : List Command) : Tokens := run (execute id) commands Tokens.empty

theorem answers_right_issued :
    (afterCommands (parsed .expirePublicKey)).answers.map (·.stoodFor) = [some ⟨1, 2, 3⟩] ∧
      ∀ a ∈ (afterCommands (parsed .expirePublicKey)).answers, a.result = .ok a.stoodFor := by
  refine ⟨by decide +kernel, answers_right Function.injective_id (.append .refl ?_)⟩
  have connected : (afterCommands issued).active < maxActive := by decide +kernel
  exact ⟨trivial, trivial, trivial, trivial, trivial, trivial, trivial, connected, trivial, trivial,
    trivial, trivial⟩

/-- A hundred calls hold a connection when another one is made. -/
def exhausted : List Command :=
  issued ++ (List.range 101).map fun caller => .parse caller someToken

/-- A run with an injective digest in which a call raises, though its token had been issued and had not
expired when it was looked up. -/
def Raises (commands : List Command) : Prop :=
  Reaches (execute id) (fun _ _ => True) Tokens.empty (afterCommands commands) ∧
    ∃ a ∈ (afterCommands commands).answers, a.stoodFor = some ⟨1, 2, 3⟩ ∧ a.result.isOk = false

/-- The token expires after it was found, and its list is empty when it is read; and the pool has no
connection for the call. -/
theorem answers_raised : Raises (parsed (.expireToken someToken)) ∧ Raises exhausted :=
  ⟨⟨.append .refl (admits_always _ _), by decide +kernel⟩,
    ⟨.append .refl (admits_always _ _), by decide +kernel⟩⟩

end Clb.Web
