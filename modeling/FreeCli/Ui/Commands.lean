import FreeCli.Ui.Tui

namespace FreeCli

open Words

/-! Slash commands: `commands.c` over the provider registry. -/

structure ProviderInfo where
  id : Bytes
  displayName : Bytes
  models : List Bytes
  deriving DecidableEq, Repr

def providers : List ProviderInfo :=
  [{ id := ascii "xai", displayName := ascii "xAI (Grok)"
     models := [ascii "grok-3-fast", ascii "grok-3", ascii "grok-3-mini-fast",
       ascii "grok-3-mini", ascii "grok-2-1212"] },
    { id := ascii "anthropic", displayName := ascii "Anthropic (Claude)"
      models := [ascii "claude-opus-4-5", ascii "claude-sonnet-4-5",
        ascii "claude-haiku-4-5", ascii "claude-3-5-sonnet-20241022",
        ascii "claude-3-5-haiku-20241022", ascii "claude-3-opus-20240229"] },
    { id := ascii "google", displayName := ascii "Google (Gemini)"
      models := [ascii "gemini-2.5-flash", ascii "gemini-2.5-pro",
        ascii "gemini-2.0-flash", ascii "gemini-1.5-pro",
        ascii "gemini-1.5-flash"] },
    { id := ascii "ibm", displayName := ascii "IBM (watsonx)"
      models := [ascii "ibm/granite-3-8b-instruct",
        ascii "ibm/granite-3-2b-instruct", ascii "ibm/granite-3-3-8b-instruct",
        ascii "meta-llama/llama-3-3-70b-instruct",
        ascii "meta-llama/llama-3-1-70b-instruct"] }]

def providerRegistryFind (id : Bytes) : Option ProviderInfo :=
  providers.find? fun info => info.id == id

def helpText : Bytes :=
  ascii "Available commands:\n" ++
  ascii "  /new [name]      create a new chat session\n" ++
  ascii "  /delete          delete the current session\n" ++
  ascii "  /clear           clear current session messages\n" ++
  ascii "  /rename <name>   rename current session\n" ++
  ascii "  /provider        choose AI provider\n" ++
  ascii "  /model           choose model for current provider\n" ++
  ascii "  /fs list [path]           list sandbox directory\n" ++
  ascii "  /fs read <path>           read a file from the sandbox\n" ++
  ascii "  /fs delete <path>         delete a file (requires approval)\n" ++
  ascii "  /fs create <path> [text]  create a file (requires approval)\n" ++
  ascii "  /fs write <path> [text]   overwrite a file (requires approval)\n" ++
  ascii "  /help            show this help"

def space : UInt8 := 32

/-- `strncmp(input, name, len) == 0` and the word ends there -/
def isCommand (name input : Bytes) : Bool :=
  name.isPrefixOf input && (input.drop name.length).head?.all (· == space)

def skipSpaces (text : Bytes) : Bytes := text.dropWhile (· == space)

def untilSpace (text : Bytes) : Bytes := text.takeWhile (· != space)

def backendOp (opName : Bytes) : Option Bytes :=
  if opName = ascii "list" then some (ascii "list_dir")
  else if opName = ascii "read" then some (ascii "read_file")
  else if opName = ascii "delete" then some (ascii "delete_file")
  else if opName = ascii "create" then some (ascii "create_file")
  else if opName = ascii "write" then some (ascii "modify_file")
  else none

def backendTypeFilesystem : Nat := 4

namespace Tui

variable (tui : Tui)

/-- `/new [name]` -/
def cmdNew (input : Bytes) : Tui :=
  let given := input.drop 5
  tui.openSession
    (if given ≠ [] then given else chatName (tui.sessions.smCount + 1))

def cmdClear : Tui :=
  match tui.sessions.activeIndex with
  | some idx => { tui with sessions := tui.sessions.setChat idx fun _ => [] }
  | none => tui

def cmdRename (input : Bytes) : Tui :=
  match tui.sessions.activeIndex with
  | some idx =>
      { tui with sessions := tui.sessions.setSession idx fun session =>
          { session with name := (input.drop 8).take 63 } }
  | none => tui

def cmdProvider (picked : Int) : Tui :=
  match if picked < 0 then none else providers[picked.toNat]? with
  | some info =>
      let model := info.models.headD []
      ((tui.doSetProvider info.id).doSetModel model).systemMsg
        ((ascii "Provider: " ++ info.displayName ++ ascii "  Model: " ++
          model).take 127)
  | none => tui

def cmdModel (picked : Int) : Tui :=
  let info := (providerRegistryFind tui.selectedProvider).getD
    (providers.headD { id := [], displayName := [], models := [] })
  match if picked < 0 then none else info.models[picked.toNat]? with
  | some model =>
      (tui.doSetModel model).systemMsg
        ((ascii "Model set to: " ++ model).take 127)
  | none => tui

/-- `/fs <op> [path] [content...]` -/
def cmdFs (input : Bytes) (env : KeyEnv) : Tui × List ToBackend :=
  let rest := skipSpaces (input.drop 3)
  if rest = [] then
    (tui.systemMsg
      (ascii "/fs: missing operation  (list|read|delete|create|write)"), [])
  else
    let opName := (untilSpace rest).take 31
    let afterOp := skipSpaces (rest.drop (untilSpace rest).length)
    match backendOp opName with
    | none =>
        (tui.systemMsg ((ascii "/fs: unknown op '" ++ opName ++
          ascii "'  (list|read|delete|create|write)").take 95), [])
    | some op =>
        let path := (untilSpace afterOp).take 1023
        let (corr, tui, sent) :=
          tui.doSendWorkerReq backendTypeFilesystem op env.argsJson
        if corr = 0 then
          (tui.systemMsg (ascii "[fs] failed to send request to backend"), sent)
        else
          (tui.systemMsg ((ascii "[fs] " ++ opName ++ ascii " " ++ path ++
            ascii " — waiting…").take 127), sent)

def cmdDispatch (input : Bytes) (env : KeyEnv) : Tui × List ToBackend :=
  if isCommand (ascii "/help") input then
    (tui.systemMsg helpText, [])
  else if isCommand (ascii "/delete") input then
    (tui.doDeleteSession tui.sessions.active, [])
  else if isCommand (ascii "/clear") input then
    (tui.cmdClear, [])
  else if isCommand (ascii "/new") input then
    (tui.cmdNew input, [])
  else if (ascii "/rename ").isPrefixOf input ∧ input.drop 8 ≠ [] then
    (tui.cmdRename input, [])
  else if isCommand (ascii "/provider") input then
    (tui.cmdProvider env.picked, [])
  else if isCommand (ascii "/model") input then
    (tui.cmdModel env.picked, [])
  else if isCommand (ascii "/fs") input then
    tui.cmdFs input env
  else
    (tui.systemMsg ((ascii "Unknown command: " ++ input ++
      ascii "  (try /help)").take 127), [])

end Tui

end FreeCli
