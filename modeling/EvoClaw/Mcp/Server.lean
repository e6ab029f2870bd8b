import EvoClaw.JsonText.CodePoints
import EvoClaw.Text.Utf8

-- The MCP server of host/mcp_server.py: JSON-RPC over stdin and stdout, a line for a message.
namespace EvoClaw.Mcp

open JsonText.CodePoints

section Messages

def ok (id result : Value) : Value :=
  .obj [(ofString "jsonrpc", .str (ofString "2.0")), (ofString "id", id),
    (ofString "result", result)]

def err (id : Value) (code : Int) (message : Text) : Value :=
  .obj [(ofString "jsonrpc", .str (ofString "2.0")), (ofString "id", id),
    (ofString "error", .obj [(ofString "code", .int code), (ofString "message", .str message)])]

def notification (method : String) (params : Value) : Value :=
  .obj [(ofString "jsonrpc", .str (ofString "2.0")), (ofString "method", .str (ofString method)),
    (ofString "params", params)]

end Messages

section Tools

-- A property of an input schema, with what stands behind its type.
def property (type : String) (more : Payload) : Json := .obj (("type", .str type) :: more)

def inputSchema (properties : Payload) (required : List String) : Json :=
  .obj <| [("type", .str "object"), ("properties", .obj properties)] ++
    if required.isEmpty then [] else [("required", .arr (required.map .str))]

def tool (name description : String) (schema : Json) : Json :=
  .obj [("name", .str name), ("description", .str description), ("inputSchema", schema)]

-- _TOOLS
def TOOLS : List Json :=
  [tool "evoclaw_get_logs"
    ("Tail recent EvoClaw container error logs and host process logs. " ++
      "Use this to diagnose errors, crashes, or unexpected behaviour.")
    (inputSchema
      [("lines", property "integer"
        [("description", .str "Number of log lines to return (default 100, max 500)"),
          ("default", .int 100)]),
        ("level", property "string"
          [("enum", .arr [.str "all", .str "error", .str "warning"]),
            ("description", .str "Filter by log level (default: all)"),
            ("default", .str "all")])] []),
    tool "evoclaw_list_groups"
      "List all registered groups with their JID, folder, and channel."
      (inputSchema [] []),
    tool "evoclaw_group_status" "Get health and recent activity for a specific group."
      (inputSchema
        [("folder", property "string"
          [("description", .str "Group folder name (e.g. 'telegram_main')")])] ["folder"]),
    tool "evoclaw_send_message"
      ("Send a text message to an EvoClaw group. " ++
        "Use for status updates, alerts, or interactive debugging.")
      (inputSchema
        [("jid", property "string" [("description", .str "Chat JID (e.g. 'tg:8259652816')")]),
          ("text", property "string" [("description", .str "Message text to send")])]
        ["jid", "text"]),
    tool "evoclaw_list_tasks" "List all active scheduled tasks (cron, interval, once)."
      (inputSchema
        [("folder", property "string"
          [("description", .str "Filter by group folder (optional)")])] []),
    tool "evoclaw_db_query"
      ("Run a read-only SQL SELECT query against the EvoClaw SQLite database. " ++
        "Tables: messages, scheduled_tasks, registered_groups, chats, router_state. " ++
        "Use for diagnostics only — INSERT/UPDATE/DELETE are blocked.")
      (inputSchema
        [("sql", property "string" [("description", .str "SQL SELECT query to execute")]),
          ("limit", property "integer"
            [("description", .str "Max rows to return (default 50, max 200)"),
              ("default", .int 50)])] ["sql"]),
    tool "evoclaw_restart_service"
      ("Request a graceful restart of the EvoClaw host process. " ++
        "Detects platform (systemd / launchd / bare-process) automatically. " ++
        "Confirm with the user before calling this.")
      (inputSchema
        [("confirm", property "boolean"
          [("description", .str "Must be true to proceed with restart")])] ["confirm"])]

-- The keys of _TOOL_FNS.
def TOOL_FNS : List String :=
  ["evoclaw_get_logs", "evoclaw_list_groups", "evoclaw_group_status", "evoclaw_send_message",
    "evoclaw_list_tasks", "evoclaw_db_query", "evoclaw_restart_service"]

-- What comes of the call of a tool: a text, an exception with its text, or nothing.
inductive Answer where
  | returned (text : Text)
  | raised (message : Text)
  | never

end Tools

-- The parts of Python that the server stands on: numbers in JSON, the text of an object that is no
-- str, the message of a JSONDecodeError, and the levels of nesting that the recursion limit
-- leaves to json.loads and to json.dumps.
structure Runtime where
  floatOf : List Char → BitVec 64
  floatText : BitVec 64 → List Char
  repr : Value → Option Text
  explain : List Char → String
  loadDepth : Nat
  dumpDepth : Nat
  roomy : 8 ≤ dumpDepth

-- An exception that nothing catches ends the process.
inductive Halt where
  | raised
  | blocked
deriving DecidableEq

section Handle

-- `x or {}`
def falsy : Value → Bool
  | .null => true
  | .bool value => !value
  | .int value => value = 0
  | .float bits => bits = 0 ∨ bits = BitVec.ofNat 64 (2 ^ 63)
  | .str text => text.isEmpty
  | .arr items => items.isEmpty
  | .obj fields => fields.isEmpty

def orEmpty (value : Option Value) : Value :=
  let found := value.getD .null
  if falsy found then .obj [] else found

def isStr (value : Value) (text : String) : Bool :=
  match value with
  | .str found => found = ofString text
  | _ => false

def isNone : Value → Bool
  | .null => true
  | _ => false

def get (fields : Fields) (key : String) : Option Value := fields.lookup (ofString key)

-- A name that is not hashable, or not known, raises outside the try block.
def callTool (tools : String → Value → Answer) (name args : Value) : Except Halt Text :=
  match TOOL_FNS.find? (isStr name) with
  | none => .error .raised
  | some known =>
      match tools known args with
      | .returned text => .ok text
      | .raised message => .ok (ofString "Tool error: " ++ message)
      | .never => .error .blocked

variable (runtime : Runtime)

-- f"{value}"
def format : Value → Option Text
  | .str text => some text
  | value => runtime.repr value

def serverInfo : Json :=
  .obj [("protocolVersion", .str "2024-11-05"), ("capabilities", .obj [("tools", .obj [])]),
    ("serverInfo", .obj [("name", .str "evoclaw"), ("version", .str "1.29.0")])]

def content (text : Text) : Value :=
  .obj [(ofString "content", .arr [.obj [(ofString "type", .str (ofString "text")),
    (ofString "text", .str text)]])]

def method (request : Fields) : Value := (get request "method").getD (.str [])

def requestId (request : Fields) : Value := (get request "id").getD .null

def isNotice (request : Fields) : Bool :=
  isNone (requestId request) && isStr (method request) "notifications/initialized"

def toolName (params : Fields) : Value := (get params "name").getD (.str [])

def toolArgs (params : Fields) : Value := orEmpty (get params "arguments")

def handle (tools : String → Value → Answer) (request : Fields) : Except Halt (Option Value) :=
  let id := requestId request
  if isNotice request then .ok none
  else if isStr (method request) "initialize" then .ok (some (ok id (ofJson serverInfo)))
  else if isStr (method request) "tools/list" then
    .ok (some (ok id (ofJson (.obj [("tools", .arr TOOLS)]))))
  else if isStr (method request) "tools/call" then
    match orEmpty (get request "params") with
    | .obj params => (callTool tools (toolName params) (toolArgs params)).map fun text =>
        some (ok id (content text))
    | _ => .error .raised
  else if isStr (method request) "ping" then .ok (some (ok id (.obj [])))
  else match format runtime (method request) with
    | some text => .ok (some (err id (-32601) (ofString "Method not found: " ++ text)))
    | none => .error .raised

end Handle

section Loop

-- The limit of a StreamReader, which readline checks before the line end.
def LIMIT : Nat := 2 ^ 16

-- What readline returns, one line after the other, up to the end of the input.
def readlines : List UInt8 → List (List UInt8)
  | [] => []
  | byte :: rest =>
      if byte = 10 then [byte] :: readlines rest
      else match readlines rest with
        | [] => [[byte]]
        | line :: lines => (byte :: line) :: lines

-- The lines are all of the input.
theorem flatten_readlines (stdin : List UInt8) : (readlines stdin).flatten = stdin := by
  induction stdin with
  | nil => rfl
  | cons byte rest ih =>
      unfold readlines
      split
      · rw [List.flatten_cons, ih, List.singleton_append]
      · cases hrest : readlines rest with
        | nil =>
            rw [hrest] at ih
            rw [← ih]
            rfl
        | cons line lines =>
            rw [hrest] at ih
            rw [← ih]
            rfl

structure Turn where
  line : List UInt8
  tools : String → Value → Answer

-- The tools may answer differently at each line.
def turnsOf (stdin : List UInt8) (tools : Nat → String → Value → Answer) : List Turn :=
  (readlines stdin).zipIdx.map fun entry => ⟨entry.1, tools entry.2⟩

variable (runtime : Runtime)

def write (message : Value) : Except Halt (List Value) :=
  if runtime.dumpDepth < depth message then .error .raised
  else if (encode (dumps runtime.floatText message ++ ofString "\n")).isSome then .ok [message]
  else .error .raised

-- What follows json.loads.
def respond (tools : String → Value → Answer) (request : Fields) : Except Halt (List Value) :=
  match handle runtime tools request with
  | .error halt => .error halt
  | .ok none => .ok []
  | .ok (some response) => write runtime response

def Turn.raw (turn : Turn) : List Char := strip (Text.Utf8.decodeReplace turn.line)

def Turn.read (turn : Turn) : Except LoadsError Value :=
  loads runtime.floatOf runtime.loadDepth turn.raw

-- One pass of the loop of _main_async, with the messages that it writes.
def Turn.pass (turn : Turn) : Except Halt (List Value) :=
  if LIMIT < (turn.line.takeWhile (· ≠ 10)).length then .error .raised
  else if turn.raw.isEmpty then .ok []
  else match turn.read runtime with
    | .error .decode => write runtime
        (err .null (-32700) (ofString ("Parse error: " ++ runtime.explain turn.raw)))
    | .error _ => .error .raised
    | .ok (.obj request) => respond runtime turn.tools request
    | .ok _ => .error .raised

-- What each pass of the loop has written, and what ends it before the input does.
structure Run where
  written : List (List Value)
  halt : Option Halt

def loop : List Turn → Run
  | [] => ⟨[], none⟩
  | turn :: turns =>
      match turn.pass runtime with
      | .error halt => ⟨[], some halt⟩
      | .ok messages => ⟨messages :: (loop turns).written, (loop turns).halt⟩

def ready : Value := notification "notifications/initialized" (.obj [])

def mainAsync (turns : List Turn) : Run :=
  match write runtime ready with
  | .error halt => ⟨[], some halt⟩
  | .ok messages => ⟨messages :: (loop runtime turns).written, (loop runtime turns).halt⟩

end Loop

section Serving

variable (runtime : Runtime)

-- A response with this id.
inductive Responds (id : Value) : Value → Prop where
  | result (result : Value) : Responds id (ok id result)
  | error (code : Int) (message : Text) : Responds id (err id code message)

-- A request is answered once, and a notification is not.
def Answered (request : Fields) (messages : List Value) : Prop :=
  match get request "id" with
  | some id => ∃ response, messages = [response] ∧ Responds id response
  | none => messages = []

def Turn.Answered (turn : Turn) (messages : List Value) : Prop :=
  ∀ request, turn.read runtime = .ok (.obj request) → Mcp.Answered request messages

-- The server reads every line to the end of the input, and answers what it has to.
def Serves (turns : List Turn) : Prop :=
  ∃ written, mainAsync runtime turns = ⟨[ready] :: written, none⟩ ∧
    List.Forall₂ (Turn.Answered runtime) turns written

end Serving

section Conditions

variable (runtime : Runtime) (tools : String → Value → Answer) (request : Fields)

def Answer.text? : Answer → Option Text
  | .returned text => some text
  | .raised message => some message
  | .never => none

-- The call of a known tool that comes to a text.
def CallReturns : Prop :=
  ∃ params, orEmpty (get request "params") = .obj params ∧
    ∃ known ∈ TOOL_FNS, toolName params = .str (ofString known) ∧
      ∃ text, (tools known (toolArgs params)).text? = some text ∧ Clean text

-- There is a result, or a message that names the method.
def HasAnswer : Prop :=
  if isStr (method request) "initialize" then True
  else if isStr (method request) "tools/list" then True
  else if isStr (method request) "tools/call" then CallReturns tools request
  else if isStr (method request) "ping" then True
  else ∃ text, format runtime (method request) = some text ∧ Clean text

-- An id that comes back in the response.
def Writable (id : Value) : Prop := Encodes id ∧ depth id < runtime.dumpDepth

def Answerable : Prop :=
  match get request "id" with
  | none => isStr (method request) "notifications/initialized"
  | some id => isNotice request = false ∧ Writable runtime id ∧ HasAnswer runtime tools request

def Turn.Harmless (turn : Turn) : Prop :=
  (turn.line.takeWhile (· ≠ 10)).length ≤ LIMIT ∧
    match turn.read runtime with
    | .error e => e = .decode
    | .ok (.obj request) => Answerable runtime turn.tools request
    | .ok _ => False

end Conditions

section Writing

variable {runtime : Runtime} {message id result : Value} {messages : List Value} {text : Text}
  {code : Int}

theorem write_eq_ok_iff : write runtime message = .ok messages ↔
    messages = [message] ∧ depth message ≤ runtime.dumpDepth ∧ Encodes message := by
  unfold write
  split_ifs with hdeep hencode
  · exact iff_of_false (by simp) fun h => absurd h.2.1 (Nat.not_le_of_lt hdeep)
  · rw [encode_isSome_iff, clean_append, clean_dumps] at hencode
    simp only [Except.ok.injEq, Nat.le_of_not_lt hdeep, hencode.1, and_self, and_true]
    exact eq_comm
  · rw [encode_isSome_iff, clean_append, clean_dumps] at hencode
    exact iff_of_false (by simp) fun h => hencode ⟨h.2.2, clean_ofString _⟩

theorem depth_ok : depth (ok id result) = max (depth id) (depth result) + 1 := by
  simp [ok, depth, depthFields]

theorem encodes_ok : Encodes (ok id result) ↔ Encodes id ∧ Encodes result := by
  simp [ok, Encodes, EncodesFields]

theorem depth_err : depth (err id code text) = max (depth id) 1 + 1 := by
  simp [err, depth, depthFields]

theorem encodes_err : Encodes (err id code text) ↔ Encodes id ∧ Clean text := by
  simp [err, Encodes, EncodesFields]

theorem write_ok_iff (hresult : Encodes result) (hdepth : depth result < runtime.dumpDepth) :
    write runtime (ok id result) = .ok messages ↔
      messages = [ok id result] ∧ Writable runtime id := by
  rw [write_eq_ok_iff, depth_ok, encodes_ok, and_iff_left hresult, and_comm (a := _ ≤ _),
    Nat.add_one_le_iff, max_lt_iff, and_iff_left hdepth]
  rfl

theorem write_err_iff : write runtime (err id code text) = .ok messages ↔
    messages = [err id code text] ∧ Writable runtime id ∧ Clean text := by
  have hroomy : 1 < runtime.dumpDepth := lt_of_lt_of_le (by decide) runtime.roomy
  rw [write_eq_ok_iff, depth_err, encodes_err, Nat.add_one_le_iff, max_lt_iff,
    and_iff_left hroomy, ← and_assoc (a := _ < _), and_comm (a := _ < _)]
  rfl

-- A line that is read as no JSON is answered with an error, and the loop goes on.
theorem write_parseError (message : String) :
    write runtime (err .null (-32700) (ofString message)) =
      .ok [err .null (-32700) (ofString message)] := by
  have hroomy : 0 < runtime.dumpDepth := lt_of_lt_of_le (by decide) runtime.roomy
  exact write_err_iff.mpr ⟨rfl, ⟨trivial, hroomy⟩, clean_ofString message⟩

theorem write_ready : write runtime ready = .ok [ready] := by
  refine write_eq_ok_iff.mpr ⟨rfl, le_trans (by decide) runtime.roomy, ?_⟩
  simp [ready, notification, Encodes, EncodesFields]

end Writing

section Responses

variable {runtime : Runtime} {tools : String → Value → Answer} {request : Fields} {name : Value}
  {messages : List Value} {id : Value} {text : Text}

theorem isStr_iff {value : Value} {known : String} :
    isStr value known = true ↔ value = .str (ofString known) := by
  cases value <;> simp [isStr]

theorem ofString_injective : Function.Injective ofString := by
  intro a b h
  have hchars : a.toList = b.toList :=
    List.map_injective_iff.mpr (fun _ _ => Char.toNat_inj.mp) h
  exact String.toList_injective hchars

theorem find?_known_iff {known : String} :
    TOOL_FNS.find? (isStr name) = some known ↔
      known ∈ TOOL_FNS ∧ name = .str (ofString known) := by
  constructor
  · intro h
    exact ⟨List.mem_of_find?_eq_some h, isStr_iff.mp (List.find?_some h)⟩
  · rintro ⟨hmem, rfl⟩
    have hknown : isStr (.str (ofString known)) known = true := isStr_iff.mpr rfl
    cases hfind : TOOL_FNS.find? (isStr (.str (ofString known))) with
    | none => exact absurd hknown (List.find?_eq_none.mp hfind known hmem)
    | some other =>
        have hother := isStr_iff.mp (List.find?_some hfind)
        rw [ofString_injective (Value.str.inj hother)]

theorem callTool_clean_iff {args : Value} :
    (∃ text, callTool tools name args = .ok text ∧ Clean text) ↔
      ∃ known ∈ TOOL_FNS, name = .str (ofString known) ∧
        ∃ text, (tools known args).text? = some text ∧ Clean text := by
  unfold callTool
  cases hfind : TOOL_FNS.find? (isStr name) with
  | none =>
      refine iff_of_false (by simp) ?_
      rintro ⟨known, hmem, hname, -⟩
      rw [find?_known_iff.mpr ⟨hmem, hname⟩] at hfind
      cases hfind
  | some known =>
      have hknown := find?_known_iff.mp hfind
      have hsplit : (∃ other ∈ TOOL_FNS, name = .str (ofString other) ∧
          ∃ text, (tools other args).text? = some text ∧ Clean text) ↔
            ∃ text, (tools known args).text? = some text ∧ Clean text := by
        refine ⟨?_, fun h => ⟨known, hknown.1, hknown.2, h⟩⟩
        rintro ⟨other, hmem, hname, h⟩
        rw [find?_known_iff.mpr ⟨hmem, hname⟩] at hfind
        rwa [← Option.some.inj hfind]
      rw [hsplit]
      cases hanswer : tools known args with
      | returned text => simp [hanswer, Answer.text?]
      | raised message => simp [hanswer, Answer.text?]
      | never => simp [hanswer, Answer.text?]

-- The outcome is one response, and it is written just when the id can be and all else is good.
structure RespondsWhen (runtime : Runtime) (id : Value) (good : Prop)
    (outcome : Except Halt (List Value)) : Prop where
  one : ∀ messages, outcome = .ok messages →
    ∃ response, messages = [response] ∧ Responds id response
  written : (∃ messages, outcome = .ok messages) ↔ Writable runtime id ∧ good

namespace RespondsWhen

theorem result {result : Value} (hresult : Encodes result)
    (hdepth : depth result < runtime.dumpDepth) :
    RespondsWhen runtime id True (write runtime (ok id result)) where
  one messages h := ⟨_, ((write_ok_iff hresult hdepth).mp h).1, .result result⟩
  written := by simp [write_ok_iff hresult hdepth]

theorem json (result : Json) (hdepth : depth (ofJson result) < 8) :
    RespondsWhen runtime id True (write runtime (ok id (ofJson result))) :=
  .result (encodes_ofJson result) (lt_of_lt_of_le hdepth runtime.roomy)

theorem error (code : Int) (text : Text) :
    RespondsWhen runtime id (Clean text) (write runtime (err id code text)) where
  one messages h := ⟨_, (write_err_iff.mp h).1, .error code text⟩
  written := by simp [write_err_iff]

theorem halts {good : Prop} {halt : Halt} (h : ¬ good) :
    RespondsWhen runtime id good (.error halt) where
  one messages heq := by cases heq
  written := iff_of_false (by simp) fun hgood => h hgood.2

theorem congr {good other : Prop} {outcome : Except Halt (List Value)} (hsame : good ↔ other)
    (h : RespondsWhen runtime id good outcome) : RespondsWhen runtime id other outcome where
  one := h.one
  written := by rw [h.written, hsame]

theorem content (text : Text) :
    RespondsWhen runtime id (Clean text) (write runtime (ok id (content text))) := by
  have hencode : Encodes (Mcp.content text) ↔ Clean text := by
    simp [Mcp.content, Encodes, EncodesFields, EncodesItems]
  have hdepth : depth (Mcp.content text) < runtime.dumpDepth := by
    refine lt_of_lt_of_le ?_ runtime.roomy
    simp [Mcp.content, depth, depthFields, depthItems]
  by_cases hclean : Clean text
  · exact (result (hencode.mpr hclean) hdepth).congr (by simp [hclean])
  · have hhalt : ∀ messages, write runtime (ok id (Mcp.content text)) ≠ .ok messages := by
      intro messages h
      exact hclean (hencode.mp (encodes_ok.mp (write_eq_ok_iff.mp h).2.2).2)
    refine ⟨fun messages h => absurd h (hhalt messages), iff_of_false ?_ fun h => hclean h.2⟩
    rintro ⟨messages, h⟩
    exact hhalt messages h

end RespondsWhen

theorem respond_of_handle {response : Value}
    (h : handle runtime tools request = .ok (some response)) :
    respond runtime tools request = write runtime response := by
  rw [respond, h]

theorem respond_of_error {halt : Halt} (h : handle runtime tools request = .error halt) :
    respond runtime tools request = .error halt := by
  rw [respond, h]

theorem callReturns_iff : CallReturns tools request ↔
    ∃ params, orEmpty (get request "params") = .obj params ∧
      ∃ text, callTool tools (toolName params) (toolArgs params) = .ok text ∧ Clean text := by
  refine exists_congr fun params => and_congr_right fun _ => ?_
  rw [callTool_clean_iff]

-- A call of a tool, as far as _handle gets with it.
theorem respond_call (hhandle : handle runtime tools request =
      match orEmpty (get request "params") with
      | .obj params => (callTool tools (toolName params) (toolArgs params)).map fun text =>
          some (ok (requestId request) (content text))
      | _ => .error .raised) :
    RespondsWhen runtime (requestId request) (CallReturns tools request)
      (respond runtime tools request) := by
  have hiff := @callReturns_iff tools request
  cases hparams : orEmpty (get request "params") with
  | obj params =>
      rw [hparams] at hhandle
      dsimp only at hhandle
      simp only [hparams, Value.obj.injEq, exists_eq_left'] at hiff
      cases hcall : callTool tools (toolName params) (toolArgs params) with
      | error halt =>
          rw [hcall] at hhandle hiff
          rw [respond_of_error hhandle]
          exact .halts (by simp [hiff])
      | ok text =>
          rw [hcall] at hhandle hiff
          rw [respond_of_handle hhandle]
          exact (RespondsWhen.content text).congr (by simp [hiff])
  | null | bool | int | float | str | arr =>
      rw [hparams] at hhandle
      rw [respond_of_error hhandle]
      exact .halts (by simp [hiff, hparams])

-- Each branch of _handle behind the first.
theorem respond_respondsWhen (hnotice : isNotice request = false) :
    RespondsWhen runtime (requestId request) (HasAnswer runtime tools request)
      (respond runtime tools request) := by
  have hbehind : ¬ isNotice request = true := Bool.not_eq_true _ ▸ hnotice
  by_cases hinitialize : isStr (method request) "initialize" = true
  · rw [HasAnswer, if_pos hinitialize, respond_of_handle]
    · exact .json serverInfo (by decide)
    · rw [handle, if_neg hbehind, if_pos hinitialize]
  by_cases hlist : isStr (method request) "tools/list" = true
  · rw [HasAnswer, if_neg hinitialize, if_pos hlist, respond_of_handle]
    · exact .json (.obj [("tools", .arr TOOLS)]) (by decide)
    · rw [handle, if_neg hbehind, if_neg hinitialize, if_pos hlist]
  by_cases hcall : isStr (method request) "tools/call" = true
  · rw [HasAnswer, if_neg hinitialize, if_neg hlist, if_pos hcall]
    refine respond_call ?_
    rw [handle, if_neg hbehind, if_neg hinitialize, if_neg hlist, if_pos hcall]
  by_cases hping : isStr (method request) "ping" = true
  · rw [HasAnswer, if_neg hinitialize, if_neg hlist, if_neg hcall, if_pos hping, respond_of_handle]
    · exact .json (.obj []) (by decide)
    · rw [handle, if_neg hbehind, if_neg hinitialize, if_neg hlist, if_neg hcall, if_pos hping]
      rfl
  rw [HasAnswer, if_neg hinitialize, if_neg hlist, if_neg hcall, if_neg hping]
  have hhandle : handle runtime tools request =
      match format runtime (method request) with
      | some text =>
          .ok (some (err (requestId request) (-32601) (ofString "Method not found: " ++ text)))
      | none => .error .raised := by
    rw [handle, if_neg hbehind, if_neg hinitialize, if_neg hlist, if_neg hcall, if_neg hping]
  cases hformat : format runtime (method request) with
  | none =>
      rw [hformat] at hhandle
      rw [respond_of_error hhandle]
      exact .halts (by simp)
  | some text =>
      rw [hformat] at hhandle
      rw [respond_of_handle hhandle]
      exact (RespondsWhen.error _ _).congr (by simp)

theorem respond_notice (hnotice : isNotice request = true) :
    respond runtime tools request = .ok [] := by
  have hhandle : handle runtime tools request = .ok none := if_pos hnotice
  rw [respond, hhandle]

theorem answerable_iff :
    (∃ messages, respond runtime tools request = .ok messages ∧ Answered request messages) ↔
      Answerable runtime tools request := by
  have hwhen := @respond_respondsWhen runtime tools request
  unfold Answerable Answered
  cases hid : get request "id" with
  | none =>
      have hnull : isNotice request = isStr (method request) "notifications/initialized" := by
        rw [isNotice, requestId, hid, Option.getD_none, isNone, Bool.true_and]
      dsimp only
      rw [← hnull]
      refine ⟨?_, fun h => ⟨[], respond_notice h, rfl⟩⟩
      rintro ⟨messages, hmessages, rfl⟩
      by_contra hother
      obtain ⟨response, hone, -⟩ := (hwhen (Bool.eq_false_iff.mpr hother)).one [] hmessages
      cases hone
  | some id =>
      have hsame : requestId request = id := by rw [requestId, hid, Option.getD_some]
      rw [hsame] at hwhen
      dsimp only
      constructor
      · rintro ⟨messages, hmessages, response, rfl, -⟩
        have hother : isNotice request = false := by
          refine Bool.eq_false_iff.mpr fun h => ?_
          rw [respond_notice h] at hmessages
          cases hmessages
        exact ⟨hother, (hwhen hother).written.mp ⟨_, hmessages⟩⟩
      · rintro ⟨hother, hgood⟩
        obtain ⟨messages, hmessages⟩ := (hwhen hother).written.mpr hgood
        exact ⟨messages, hmessages, (hwhen hother).one messages hmessages⟩

end Responses

section Runs

variable {runtime : Runtime} {turn : Turn} {turns : List Turn}

theorem pass_of_read (hshort : (turn.line.takeWhile (· ≠ 10)).length ≤ LIMIT)
    (hraw : turn.raw ≠ []) : turn.pass runtime =
      match turn.read runtime with
      | .error .decode => write runtime
          (err .null (-32700) (ofString ("Parse error: " ++ runtime.explain turn.raw)))
      | .error _ => .error .raised
      | .ok (.obj request) => respond runtime turn.tools request
      | .ok _ => .error .raised := by
  have hnonempty : ¬ turn.raw.isEmpty = true := by simpa using hraw
  rw [Turn.pass, if_neg (Nat.not_lt_of_le hshort), if_neg hnonempty]

-- A blank line is no JSON, and is passed over in silence.
theorem read_of_blank (hraw : turn.raw = []) : turn.read runtime = .error .decode := by
  rw [Turn.read, hraw, loads_nil]

-- One pass of the loop.
theorem harmless_iff :
    (∃ messages, turn.pass runtime = .ok messages ∧ turn.Answered runtime messages) ↔
      turn.Harmless runtime := by
  unfold Turn.Harmless Turn.Answered
  by_cases hshort : (turn.line.takeWhile (· ≠ 10)).length ≤ LIMIT
  swap
  · have hpass : turn.pass runtime = .error .raised := if_pos (Nat.lt_of_not_le hshort)
    exact iff_of_false (by simp [hpass]) fun h => hshort h.1
  rw [and_iff_right hshort]
  by_cases hraw : turn.raw = []
  · have hpass : turn.pass runtime = .ok [] := by
      rw [Turn.pass, if_neg (Nat.not_lt_of_le hshort), if_pos (by simp [hraw])]
    rw [read_of_blank hraw]
    exact iff_of_true ⟨[], hpass, fun request h => by cases h⟩ rfl
  have hpass := @pass_of_read runtime turn hshort hraw
  cases hread : turn.read runtime with
  | error e =>
      rw [hread] at hpass
      cases e with
      | decode =>
          dsimp only at hpass
          rw [write_parseError] at hpass
          exact iff_of_true ⟨_, hpass, fun request h => by cases h⟩ rfl
      | value | recursion => exact iff_of_false (by simp [hpass]) (by simp)
  | ok found =>
      rw [hread] at hpass
      cases found with
      | obj request =>
          dsimp only at hpass ⊢
          rw [hpass, ← answerable_iff]
          simp only [Except.ok.injEq, Value.obj.injEq, forall_eq']
      | null | bool | int | float | str | arr => exact iff_of_false (by simp [hpass]) (by simp)

-- The loop gets through the lines exactly when each of them is harmless.
theorem loop_iff : (∃ written, loop runtime turns = ⟨written, none⟩ ∧
    List.Forall₂ (Turn.Answered runtime) turns written) ↔
      ∀ turn ∈ turns, turn.Harmless runtime := by
  induction turns with
  | nil => simp [loop]
  | cons turn turns ih =>
      rw [List.forall_mem_cons, ← harmless_iff, ← ih]
      constructor
      · rintro ⟨written, hloop, hanswered⟩
        cases hanswered with
        | cons hhead htail =>
            rename_i messages rest
            cases hpass : turn.pass runtime with
            | error halt =>
                rw [loop, hpass] at hloop
                cases hloop
            | ok found =>
                simp only [loop, hpass, Run.mk.injEq, List.cons.injEq] at hloop
                obtain ⟨⟨rfl, rfl⟩, hhalt⟩ := hloop
                exact ⟨⟨_, rfl, hhead⟩, _, by rw [← hhalt], htail⟩
      · rintro ⟨⟨messages, hpass, hhead⟩, written, hloop, htail⟩
        refine ⟨messages :: written, ?_, .cons hhead htail⟩
        rw [loop, hpass, hloop]

theorem serves_iff_loop : Serves runtime turns ↔
    ∃ written, loop runtime turns = ⟨written, none⟩ ∧
      List.Forall₂ (Turn.Answered runtime) turns written := by
  refine exists_congr fun written => and_congr_left fun _ => ?_
  rw [mainAsync, write_ready]
  cases loop runtime turns with
  | mk done halt => simp only [Run.mk.injEq, List.cons.injEq, true_and]

end Runs

theorem serves_iff_harmless (runtime : Runtime) (stdin : List UInt8)
    (tools : Nat → String → Value → Answer) :
    Serves runtime (turnsOf stdin tools) ↔
      ∀ turn ∈ turnsOf stdin tools, turn.Harmless runtime :=
  serves_iff_loop.trans loop_iff

-- No float, and no method but a str, comes up in what follows.
def plain : Runtime where
  floatOf _ := 0
  floatText _ := []
  repr _ := none
  explain _ := ""
  loadDepth := 100
  dumpDepth := 100
  roomy := by decide

def unknownTool : List Char :=
  ("\x7b\"id\": 1, \"method\": \"tools/call\", \"params\": \x7b\"name\": \"x\"\x7d\x7d\n").toList

def ping : List Char := "\x7b\"id\": 2, \"method\": \"ping\"\x7d\n".toList

-- The ValueError of an unknown tool ends the server, and the ping behind it has no answer.
theorem unknown_tool_ends_server :
    ¬ Serves plain (turnsOf (Text.Utf8.encode (unknownTool ++ ping)) fun _ _ _ => .never) := by
  rw [serves_iff_loop, loop_iff]
  intro h
  have hlines : readlines (Text.Utf8.encode (unknownTool ++ ping)) =
      [Text.Utf8.encode unknownTool, Text.Utf8.encode ping] := by decide
  rw [turnsOf, hlines] at h
  obtain ⟨messages, hpass, -⟩ := harmless_iff.mpr (h _ List.mem_cons_self)
  have hraw : Turn.raw ⟨Text.Utf8.encode unknownTool, fun _ _ => .never⟩ = strip unknownTool := by
    rw [Turn.raw, Text.Utf8.decodeReplace_encode]
  have hdies :
      (Turn.pass plain ⟨Text.Utf8.encode unknownTool, fun _ _ => .never⟩).isOk = false := by
    rw [pass_of_read (by decide) (by rw [hraw]; decide), Turn.read, hraw]
    decide +kernel
  rw [hpass] at hdies
  cases hdies

end EvoClaw.Mcp
