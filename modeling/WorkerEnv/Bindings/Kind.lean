/-
# WorkerEnv.Bindings.Kind -- the kinds of binding

There are eighteen kinds. `Kind.all` is the order in which they are always visited, whatever the
order of a manifest. Each kind has a place in the manifest, a label for messages, and, where its
bindings are records, the keys of their fields.
-/

namespace WorkerEnv

/-- What a binding gives access to. -/
inductive Kind where
  | kvNamespace
  | plainVar
  | durableObject
  | r2Bucket
  | d1Database
  | service
  | analyticsDataset
  | dispatchNamespace
  | logForwarding
  | dataBlob
  | textBlob
  | wasmModule
  | unsafeBinding
  | queueProducer
  | sendEmail
  | vectorizeIndex
  | hyperdrive
  | mtlsCertificate
  deriving DecidableEq, Repr

namespace Kind

/-- Every kind, in the order in which kinds are visited. -/
def all : List Kind :=
  [kvNamespace, plainVar, durableObject, r2Bucket, d1Database, service, analyticsDataset,
    dispatchNamespace, logForwarding, dataBlob, textBlob, wasmModule, unsafeBinding, queueProducer,
    sendEmail, vectorizeIndex, hyperdrive, mtlsCertificate]

/-! ## The place in the manifest -/

/-- The key of a manifest under which bindings of the kind stand. -/
def key : Kind → String
  | kvNamespace => "kv_namespaces"
  | plainVar => "vars"
  | durableObject => "durable_objects"
  | r2Bucket => "r2_buckets"
  | d1Database => "d1_databases"
  | service => "services"
  | analyticsDataset => "analytics_engine_datasets"
  | dispatchNamespace => "dispatch_namespaces"
  | logForwarding => "logfwdr"
  | dataBlob => "data_blobs"
  | textBlob => "text_blobs"
  | wasmModule => "wasm_modules"
  | unsafeBinding => "unsafe"
  | queueProducer => "queues"
  | sendEmail => "send_email"
  | vectorizeIndex => "vectorize"
  | hyperdrive => "hyperdrive"
  | mtlsCertificate => "mtls_certificates"

/-- The key of the list inside the table under `key`, for the kinds that have such a table. -/
def listKey? : Kind → Option String
  | durableObject => some "bindings"
  | logForwarding => some "bindings"
  | unsafeBinding => some "bindings"
  | queueProducer => some "producers"
  | _ => none

/-- The whole place, with a dot before the inner key. -/
def place (kind : Kind) : String :=
  match kind.listKey? with
  | none => kind.key
  | some inner => kind.key ++ "." ++ inner

/-- The innermost key of the place. -/
def innermostKey (kind : Kind) : String := kind.listKey?.getD kind.key

/-! ## The fields of a binding -/

/-- The field that holds the name of a binding. -/
def nameKey : Kind → String
  | durableObject => "name"
  | logForwarding => "name"
  | unsafeBinding => "name"
  | sendEmail => "name"
  | _ => "binding"

/-- The other fields of a binding, in order. All of them may be left out. -/
def settingKeys : Kind → List String
  | kvNamespace => ["id", "preview_id"]
  | durableObject => ["class_name", "script_name"]
  | r2Bucket => ["bucket_name"]
  | d1Database => ["database_name", "database_id"]
  | service => ["service", "environment"]
  | analyticsDataset => ["dataset"]
  | dispatchNamespace => ["namespace"]
  | logForwarding => ["destination"]
  | unsafeBinding => ["type"]
  | queueProducer => ["queue"]
  | sendEmail => ["destination_address"]
  | vectorizeIndex => ["index_name"]
  | hyperdrive => ["id"]
  | mtlsCertificate => ["certificate_id"]
  | plainVar => []
  | dataBlob => []
  | textBlob => []
  | wasmModule => []

/-! ## Messages -/

/-- The kind as messages name it. -/
def label : Kind → String
  | kvNamespace => "KV namespace"
  | plainVar => "variable"
  | durableObject => "Durable Object"
  | r2Bucket => "R2 bucket"
  | d1Database => "D1 database"
  | service => "service"
  | analyticsDataset => "Analytics Engine dataset"
  | dispatchNamespace => "dispatch namespace"
  | logForwarding => "log forwarding binding"
  | dataBlob => "data blob"
  | textBlob => "text blob"
  | wasmModule => "wasm module"
  | unsafeBinding => "unsafe binding"
  | queueProducer => "queue producer"
  | sendEmail => "send email binding"
  | vectorizeIndex => "Vectorize index"
  | hyperdrive => "Hyperdrive config"
  | mtlsCertificate => "mTLS certificate"

/-- Every kind is visited. -/
theorem mem_all (kind : Kind) : kind ∈ all := by cases kind <;> decide

/-- No kind is visited twice. -/
theorem nodup_all : all.Nodup := by decide

end Kind

end WorkerEnv
