import ScuffedRedis.Client.MockKeys
import ScuffedRedis.Client.MockLiveness
import ScuffedRedis.Client.NodeClient
import ScuffedRedis.Foundation.Words

/-!
# The endpoint that executes typed commands

`POST /execute` takes a command as one text, splits it at white space and calls the backend, here
the mock. So the value of a SET is the words that were typed after the key, with one space between
them, and a second word `EX` is the time to live.
-/
namespace ScuffedRedis

open Foundation ScuffedRedisClient

/-- What the engine does that is not modelled: how it rounds a number, its upper case, and the
message of the error for a pattern that is no regular expression. -/
structure Engine where
  round : ℚ → ℚ
  toUpperCase : String → String
  syntaxError : String → String

inductive ExecuteResult where
  | null
  | string (value : String)
  | number (value : Nat)
  | strings (values : List String)
  deriving DecidableEq

/-- `badRequest` has the status 400; the others are answered as JSON with the command. -/
inductive ExecuteResponse where
  | badRequest (error : String)
  | result (result : ExecuteResult)
  | error (message : String)
  deriving DecidableEq

namespace MockCache

/-! ### The parts of a command -/

/-- `command.trim().split(/\s+/)`. The text without any word has one part, which is empty. -/
def commandParts (command : String) : List String :=
  match words isSpace ((command.toList.dropWhile isSpace).rdropWhile isSpace) with
  | [] => [""]
  | parts => parts.map String.ofList

/-- The time to live of a SET with these arguments; `NaN` is none. -/
def executeTtl (engine : Engine) (args : List String) : Option ℚ :=
  if args[2]? = some "EX" then
    (args[3]?.bind parseInt).map fun seconds => engine.round seconds
  else none

/-- `args.slice(1, args[2] === 'EX' ? 2 : undefined).join(' ')`. -/
def executeValue (args : List String) : String :=
  " ".intercalate (if args[2]? = some "EX" then (args.take 2).drop 1 else args.drop 1)

/-- The switch over the name of the command. -/
def executeSwitch (engine : Engine) (cache : MockCache) (now : ℚ) (cmd : String)
    (args : List String) : ExecuteResponse × MockCache :=
  if cmd = "PING" then (.result (.string "PONG"), cache)
  else if cmd = "GET" then
    match args with
    | [key] =>
      let (value, cache) := redisGet cache now key
      (.result (value.elim .null .string), cache)
    | _ => (.error "GET requires exactly 1 argument", cache)
  else if cmd = "SET" then
    match args with
    | key :: value :: rest =>
      let args := key :: value :: rest
      (.result (.string "OK"), redisSet engine.round cache now key (executeValue args)
        (executeTtl engine args))
    | _ => (.error "SET requires at least 2 arguments", cache)
  else if cmd = "DEL" then
    match args with
    | key :: _ =>
      let (deleted, cache) := redisDel cache key
      (.result (.number deleted), cache)
    | [] => (.error "DEL requires at least 1 argument", cache)
  else if cmd = "EXISTS" then
    match args with
    | [key] => (.result (.number (redisExists cache now key)), cache)
    | _ => (.error "EXISTS requires exactly 1 argument", cache)
  else if cmd = "KEYS" then
    match args with
    | [pattern] =>
      match redisKeysFor cache pattern with
      | some keys => (.result (.strings keys), cache)
      | none => (.error (engine.syntaxError pattern), cache)
    | _ => (.error "KEYS requires exactly 1 argument", cache)
  else if cmd = "FLUSHDB" then (.result (.string "OK"), redisFlushdb)
  else if cmd = "INFO" then
    (.result (.string ("mock_mode:true\r\nkeys:" ++ toString cache.size)), cache)
  else if cmd = "DBSIZE" then (.result (.number (redisDbsize cache)), cache)
  else if cmd = "ZADD" then
    (.error "Sorted set commands not yet implemented in web interface", cache)
  else (.error ("Unknown command: " ++ cmd), cache)

/-- A request with this command. The backend is called once at most, so requests do not mix. -/
def execute (engine : Engine) (cache : MockCache) (now : ℚ) (command : String) :
    ExecuteResponse × MockCache :=
  if command = "" then (.badRequest "No command provided", cache)
  else
    executeSwitch engine cache now (engine.toUpperCase ((commandParts command).headD ""))
      (commandParts command).tail

/-- The cache after requests at their times. -/
def executeAll (engine : Engine) (cache : MockCache) (requests : List (ℚ × String)) : MockCache :=
  requests.foldl (fun cache request => (execute engine cache request.1 request.2).2) cache

/-! ### Texts and their words -/

/-- The words of a text as strings. -/
def typedWords (typed : String) : List String := (words isSpace typed.toList).map String.ofList

theorem commandParts_eq {command : String} {first : List Char} {rest : List (List Char)}
    (read : words isSpace command.toList = first :: rest) :
    commandParts command = (first :: rest).map String.ofList := by
  rw [commandParts, words_trim, read]

/-- A command that is typed as a name, a blank and the rest. -/
theorem commandParts_cons {name : String} (word : Word isSpace name.toList) (rest : String) :
    commandParts (name ++ " " ++ rest) = name :: typedWords rest := by
  have read : words isSpace (name ++ " " ++ rest).toList =
      name.toList :: words isSpace rest.toList := by
    rw [String.toList_append, String.toList_append, List.append_assoc]
    exact word.words_cons rfl _
  rw [commandParts_eq read, List.map_cons, String.ofList_toList]
  rfl

theorem typedWords_word {key : String} (word : Word isSpace key.toList) :
    typedWords key = [key] := by
  rw [typedWords, word.words_eq, List.map_singleton, String.ofList_toList]

theorem typedWords_cons {key : String} (word : Word isSpace key.toList) (value : String) :
    typedWords (key ++ " " ++ value) = key :: typedWords value := by
  rw [typedWords, String.toList_append, String.toList_append, List.append_assoc]
  rw [show " ".toList ++ value.toList = ' ' :: value.toList from rfl, word.words_cons rfl,
    List.map_cons, String.ofList_toList]
  rfl

/-! ### One request -/

variable {engine : Engine} {cache : MockCache} {now : ℚ} {key value : String}

theorem executeSwitch_failed {cmd message : String} {args : List String}
    (failed : (executeSwitch engine cache now cmd args).1 = .error message) :
    (executeSwitch engine cache now cmd args).2 = cache := by
  unfold executeSwitch at failed ⊢
  split_ifs at failed ⊢ with ping get set del exists' list flush info size sorted
  · split at failed
    · cases failed
    · rfl
  · split at failed
    · cases failed
    · rfl
  · split at failed
    · cases failed
    · rfl
  · split at failed
    · cases failed
    · rfl
  · split at failed
    · split <;> rfl
    · rfl
  · rfl
  · rfl

/-- A request that fails leaves the cache as it is. -/
theorem execute_failed {command message : String}
    (failed : (execute engine cache now command).1 = .error message) :
    (execute engine cache now command).2 = cache := by
  rw [execute] at failed ⊢
  split_ifs at failed ⊢
  exact executeSwitch_failed failed

/-- The request may write the entry of the key. -/
def Touches (engine : Engine) (key command : String) : Prop :=
  let cmd := engine.toUpperCase ((commandParts command).headD "")
  cmd = "FLUSHDB" ∨ (cmd = "SET" ∨ cmd = "DEL") ∧ (commandParts command).tail.head? = some key

/-- The entry is there, or it has expired and a GET has taken it out. -/
def Keeps (cache : MockCache) (key : String) (entry : MockEntry) (now : ℚ) : Prop :=
  cache.get? key = some entry ∨ cache.get? key = none ∧ entry.expires ≤ now

variable {entry : MockEntry} {later : ℚ}

theorem Keeps.get (keeps : Keeps cache key entry later) (early : now ≤ later) (other : String) :
    Keeps (redisGet cache now other).2 key entry later := by
  have gone (absent : ∀ stored, cache.get? key = some stored →
      ¬ (other = key → now < stored.expires)) : (redisGet cache now other).2.get? key = none := by
    rw [Option.eq_none_iff_forall_ne_some]
    intro stored kept
    obtain ⟨there, live⟩ := get?_redisGet.mp kept
    exact absent stored there live
  rcases keeps with there | ⟨absent, expired⟩
  · by_cases live : other = key → now < entry.expires
    · exact .inl (get?_redisGet.mpr ⟨there, live⟩)
    · refine .inr ⟨gone fun stored same => ?_, ?_⟩
      · rw [there, Option.some_inj] at same
        exact same ▸ live
      · rw [Classical.not_imp, not_lt] at live
        exact live.2.trans early
  · refine .inr ⟨gone fun stored same => ?_, expired⟩
    rw [absent] at same
    cases same

theorem Keeps.set (keeps : Keeps cache key entry later) {other : String} (apart : other ≠ key)
    (value : String) (ttl : Option ℚ) :
    Keeps (redisSet engine.round cache now other value ttl) key entry later := by
  rw [Keeps, redisSet, InsertionMap.get?_set, if_neg apart.symm]
  exact keeps

theorem Keeps.del (keeps : Keeps cache key entry later) {other : String} (apart : other ≠ key) :
    Keeps (redisDel cache other).2 key entry later := by
  rw [Keeps, redisDel, InsertionMap.get?_delete, if_neg apart.symm]
  exact keeps

theorem Keeps.get_iff (keeps : Keeps cache key entry later) :
    (redisGet cache later key).1 = some value ↔ later < entry.expires ∧ entry.value = value := by
  rw [redisGet]
  rcases keeps with there | ⟨absent, expired⟩
  · rw [there]
    by_cases live : entry.expires > later
    · simp [live]
    · simp [live]
  · rw [absent]
    simp [expired]

/-- A request that does not touch the key keeps its entry. -/
theorem Keeps.execute (keeps : Keeps cache key entry later) (early : now ≤ later)
    {command : String} (untouched : ¬ Touches engine key command) :
    Keeps (execute engine cache now command).2 key entry later := by
  rw [MockCache.execute]
  split_ifs with empty
  · exact keeps
  · rw [Touches] at untouched
    generalize engine.toUpperCase ((commandParts command).headD "") = cmd at *
    generalize (commandParts command).tail = args at *
    unfold executeSwitch
    split_ifs with ping get set del exists' list flush info size sorted
    · exact keeps
    · split
      · exact keeps.get early _
      · exact keeps
    · split
      next first value rest =>
        have other : first ≠ key := by
          rintro rfl
          exact untouched (.inr ⟨.inl set, rfl⟩)
        exact keeps.set other _ _
      next => exact keeps
    · split
      next first rest =>
        have other : first ≠ key := by
          rintro rfl
          exact untouched (.inr ⟨.inr del, rfl⟩)
        exact keeps.del other
      next => exact keeps
    · split <;> exact keeps
    · split
      · split <;> exact keeps
      · exact keeps
    · exact absurd (.inl flush) untouched
    · exact keeps
    · exact keeps
    · exact keeps
    · exact keeps

theorem Keeps.executeAll (keeps : Keeps cache key entry later) {requests : List (ℚ × String)}
    (early : ∀ request ∈ requests, request.1 ≤ later)
    (untouched : ∀ request ∈ requests, ¬ Touches engine key request.2) :
    Keeps (executeAll engine cache requests) key entry later := by
  induction requests generalizing cache with
  | nil => exact keeps
  | cons request requests ih =>
    rw [List.forall_mem_cons] at early untouched
    exact ih (keeps.execute early.1 untouched.1) early.2 untouched.2

/-! ### Setting and getting -/

theorem execute_get (upper : engine.toUpperCase "GET" = "GET") (word : Word isSpace key.toList) :
    execute engine cache now ("GET " ++ key) =
      (.result ((redisGet cache now key).1.elim .null .string), (redisGet cache now key).2) := by
  have name : Word isSpace "GET".toList := by simp [Word, isSpace]
  have parts : commandParts ("GET " ++ key) = ["GET", key] := by
    rw [← typedWords_word word]
    exact commandParts_cons name key
  have nonempty : "GET " ++ key ≠ "" := by simp
  rw [execute, if_neg nonempty, parts]
  simp only [List.headD_cons, List.tail_cons, upper]
  rfl

theorem execute_set (upper : engine.toUpperCase "SET" = "SET") (word : Word isSpace key.toList)
    (typed : typedWords value ≠ []) :
    execute engine cache now ("SET " ++ key ++ " " ++ value) =
      (.result (.string "OK"), redisSet engine.round cache now key
        (executeValue (key :: typedWords value))
        (executeTtl engine (key :: typedWords value))) := by
  have name : Word isSpace "SET".toList := by simp [Word, isSpace]
  have parts : commandParts ("SET " ++ key ++ " " ++ value) =
      "SET" :: key :: typedWords value := by
    rw [← typedWords_cons word, ← commandParts_cons name]
    simp only [String.append_assoc]
    rfl
  have nonempty : "SET " ++ key ++ " " ++ value ≠ "" := by simp
  rw [execute, if_neg nonempty, parts]
  simp only [List.headD_cons, List.tail_cons, upper]
  cases read : typedWords value with
  | nil => exact absurd read typed
  | cons first rest => rfl

theorem result_string_iff {found : Option String} :
    ExecuteResponse.result (found.elim .null .string) = .result (.string value) ↔
      found = some value := by
  cases found <;> simp

/-- A word that is typed is the only one in its text. -/
theorem typedWords_of_mem {word : String} (listed : word ∈ typedWords value) :
    typedWords word = [word] := by
  obtain ⟨chars, among, rfl⟩ := List.mem_map.mp listed
  apply typedWords_word
  rw [String.toList_ofList]
  exact word_of_mem_words among

/-- **What is typed is read back.** A value is typed after a key in a SET, and the key in a later
GET; the requests between do not touch the key. Then the GET returns the value exactly when it is
its words with one space between them, its second word is not `EX`, and not an hour has passed. -/
theorem typed_value_read_back_iff (engine : Engine) (cache : MockCache) (key value : String)
    (now later : ℚ) (between : List (ℚ × String)) (upperSet : engine.toUpperCase "SET" = "SET")
    (upperGet : engine.toUpperCase "GET" = "GET") (word : Word isSpace key.toList)
    (typed : typedWords value ≠ []) (early : ∀ request ∈ between, request.1 ≤ later)
    (untouched : ∀ request ∈ between, ¬ Touches engine key request.2) :
    (execute engine (executeAll engine
        (execute engine cache now ("SET " ++ key ++ " " ++ value)).2 between)
      later ("GET " ++ key)).1 = .result (.string value) ↔
      " ".intercalate (typedWords value) = value ∧ (typedWords value)[1]? ≠ Option.some "EX" ∧
        later < engine.round (now + 3600000) := by
  rw [execute_set upperSet word typed, execute_get upperGet word]
  have stored : Keeps (redisSet engine.round cache now key (executeValue (key :: typedWords value))
      (executeTtl engine (key :: typedWords value))) key ⟨executeValue (key :: typedWords value),
        expiresAt engine.round now (executeTtl engine (key :: typedWords value))⟩ later := by
    refine .inl ?_
    rw [redisSet, InsertionMap.get?_set, if_pos rfl]
  rw [result_string_iff, (stored.executeAll early untouched).get_iff, and_comm]
  cases read : typedWords value with
  | nil => exact absurd read typed
  | cons first rest =>
    by_cases timed : rest[0]? = Option.some "EX"
    · -- Only the first word is stored, and it is not the whole value.
      have shorter : first ≠ value := by
        rintro rfl
        have one := typedWords_of_mem (read ▸ List.mem_cons_self : first ∈ typedWords first)
        rw [read, List.cons.injEq] at one
        rw [one.2] at timed
        cases timed
      simp [executeValue, timed, shorter]
    · simp [executeValue, executeTtl, expiresAt, timed]

/-- An engine that sees ASCII only and has exact numbers. -/
def asciiEngine : Engine where
  round := id
  toUpperCase string := String.ofList (string.toList.map Char.toUpper)
  syntaxError := id

/-- `SET a 1 2`, then a PING, then `GET a`. -/
theorem typed_value_read_back_iff_two :
    (execute asciiEngine (executeAll asciiEngine
        (execute asciiEngine InsertionMap.empty 0 ("SET " ++ "a" ++ " " ++ "1 2")).2 [(1, "PING")])
      2 ("GET " ++ "a")).1 = .result (.string "1 2") ↔
      " ".intercalate (typedWords "1 2") = "1 2" ∧ (typedWords "1 2")[1]? ≠ some "EX" ∧
        (2 : ℚ) < asciiEngine.round (0 + 3600000) := by
  have word : Word isSpace "a".toList := by simp [Word, isSpace]
  have one : Word isSpace "1".toList := by simp [Word, isSpace]
  have ping : Word isSpace "PING".toList := by simp [Word, isSpace]
  have nonempty : typedWords "1 2" ≠ [] := by
    rw [show "1 2" = "1" ++ " " ++ "2" from rfl, typedWords_cons one]
    exact List.cons_ne_nil _ _
  have untouched : ¬ Touches asciiEngine "a" "PING" := by
    have parts : commandParts "PING" = ["PING"] := commandParts_eq ping.words_eq
    rw [Touches, parts]
    decide
  exact typed_value_read_back_iff asciiEngine InsertionMap.empty "a" "1 2" 0 2
    [(1, "PING")] (by decide) (by decide) word nonempty (by simp) (by simpa using untouched)

end MockCache
end ScuffedRedis
