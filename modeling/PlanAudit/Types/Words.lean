/-!
# Words that are not types of a project

Names in Pascal case that a plan uses without expecting the project to declare them.

## Main definitions

* `builtinTypes`: types of the language, the platform and common frameworks
* `commonMethods`: methods that follow a name in Pascal case in prose
* `commonWords`: words that start a heading or a sentence
-/

namespace PlanAudit.Types

/-- Types of the language, the platform and common frameworks. -/
def builtinTypes : List String := [
  "String", "Number", "Boolean", "Object", "Symbol", "BigInt", "Function", "Array", "Map", "Set",
  "WeakMap", "WeakSet", "WeakRef", "Promise", "Date", "RegExp", "Error", "TypeError",
  "RangeError", "SyntaxError", "Uint8Array", "Uint16Array", "Uint32Array", "Int8Array",
  "Int16Array", "Int32Array", "Float32Array", "Float64Array", "ArrayBuffer", "SharedArrayBuffer",
  "DataView", "Proxy", "Reflect", "JSON", "Math", "Intl", "Iterator", "AsyncIterator", "Record",
  "Partial", "Required", "Readonly", "Pick", "Omit", "Exclude", "Extract", "NonNullable",
  "ReturnType", "Parameters", "ConstructorParameters", "InstanceType", "ThisParameterType",
  "OmitThisParameter", "Awaited", "Uppercase", "Lowercase", "Capitalize", "Uncapitalize",
  "NoInfer", "Prettify", "Request", "Response", "Headers", "URL", "URLSearchParams",
  "HTMLElement", "HTMLDivElement", "HTMLInputElement", "HTMLFormElement", "HTMLButtonElement",
  "HTMLAnchorElement", "HTMLImageElement", "Element", "Node", "Document", "Window", "Event",
  "MouseEvent", "KeyboardEvent", "FormData", "Blob", "File", "FileReader", "AbortController",
  "AbortSignal", "ReadableStream", "WritableStream", "TransformStream", "WebSocket",
  "XMLHttpRequest", "FormEvent", "ChangeEvent", "MediaQueryList", "IntersectionObserver",
  "MutationObserver", "ResizeObserver", "React", "Component", "PureComponent", "JSX",
  "ReactNode", "ReactElement", "FC", "FunctionComponent", "Dispatch", "SetStateAction",
  "RefObject", "MutableRefObject", "ContextType", "PropsWithChildren", "PropsWithRef",
  "SyntheticEvent", "BaseSyntheticEvent", "Buffer", "Stream", "EventEmitter", "Readable",
  "Writable", "Transform", "Duplex", "IncomingMessage", "ServerResponse", "Server",
  "ChildProcess", "Worker", "NextRequest", "NextResponse", "NextPage", "GetServerSideProps",
  "GetStaticProps", "PrismaClient", "Prisma", "Express", "Router", "Mock", "SpyInstance",
  "Console", "Iterable", "AsyncIterable", "IterableIterator", "AsyncIterableIterator",
  "Generator", "AsyncGenerator", "PromiseLike"]

/-- Methods of built-in objects. -/
def commonMethods : List String := [
  "map", "filter", "reduce", "forEach", "find", "some", "every", "includes", "push", "pop",
  "shift", "unshift", "splice", "slice", "concat", "flat", "flatMap", "sort", "reverse", "fill",
  "at", "indexOf", "lastIndexOf", "findIndex", "get", "set", "has", "delete", "clear", "entries",
  "values", "keys", "then", "catch", "finally", "resolve", "reject", "toString", "valueOf",
  "toJSON", "assign", "freeze", "from", "of", "isArray", "parse", "stringify", "log", "error",
  "warn", "info", "debug", "join", "split", "replace", "match", "search", "trim", "length",
  "size", "next", "return", "throw", "addEventListener", "removeEventListener", "createElement",
  "getElementById", "querySelector", "groupBy", "apply", "call", "bind"]

/-- Words that start a heading or a sentence. -/
def commonWords : List String := [
  "Create", "Update", "Delete", "Get", "Set", "Add", "Remove", "Fetch", "Post", "Put", "Patch",
  "List", "Find", "Search", "Sort", "Filter", "Group", "Handle", "Process", "Parse", "Build",
  "Run", "Test", "Testing", "Check", "Validate", "Verify", "Init", "Setup", "Start", "Stop",
  "Deploy", "Install", "Enable", "Disable", "Configure", "Implement", "Migrate", "Refactor",
  "Move", "Copy", "Rename", "Extract", "Merge", "Integrate", "Define", "Register", "Mount",
  "Connect", "Initialize", "Top", "Bottom", "Left", "Right", "First", "Last", "Next", "Previous",
  "Current", "Default", "Aggregate", "Calculate", "Compute", "Total", "Average", "Each", "All",
  "Any", "Some", "None", "Every", "Step", "Phase", "Stage", "Level", "Section", "Overview",
  "Summary", "Details", "Description", "Implementation", "Note", "Todo", "Fix", "Bug", "Feature",
  "Issue", "This", "That", "Also", "Then", "Here", "There", "Where", "When"]

end PlanAudit.Types
