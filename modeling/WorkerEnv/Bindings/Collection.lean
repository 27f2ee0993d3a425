/-
# WorkerEnv.Bindings.Collection -- the bindings of one environment

A manifest declares bindings at its top level and once more for every environment. `Bindings.names`
gives the names of one kind in the order of their declaration, and `Bindings.pairs` all of them, kind
by kind; the checks, the reports and the generated declarations all go by that sequence.
-/

import WorkerEnv.Bindings.Kind
import WorkerEnv.Bindings.Rule

namespace WorkerEnv

open Toml

/-- A binding that is written as a record: its name, empty if it was left out, and its other
fields in the order of `Kind.settingKeys`. -/
structure Resource where
  name : String
  settings : List (Option String)
  deriving DecidableEq, Repr

/-- Named files. -/
abbrev Assets := List (String × String)

/-- All bindings of one environment, and its import rules. -/
structure Bindings where
  kvNamespaces : List Resource := []
  vars : Table := []
  durableObjects : List Resource := []
  r2Buckets : List Resource := []
  d1Databases : List Resource := []
  services : List Resource := []
  analyticsDatasets : List Resource := []
  dispatchNamespaces : List Resource := []
  logForwarding : List Resource := []
  dataBlobs : Assets := []
  textBlobs : Assets := []
  wasmModules : Assets := []
  unsafeBindings : List Resource := []
  queueProducers : List Resource := []
  sendEmail : List Resource := []
  vectorizeIndexes : List Resource := []
  hyperdrives : List Resource := []
  mtlsCertificates : List Resource := []
  rules : List Rule := []

namespace Bindings

/-! ## Names -/

/-- The names of the bindings of one kind, in the order of their declaration. -/
def names (b : Bindings) : Kind → List String
  | .kvNamespace => b.kvNamespaces.map (·.name)
  | .plainVar => b.vars.map (·.1)
  | .durableObject => b.durableObjects.map (·.name)
  | .r2Bucket => b.r2Buckets.map (·.name)
  | .d1Database => b.d1Databases.map (·.name)
  | .service => b.services.map (·.name)
  | .analyticsDataset => b.analyticsDatasets.map (·.name)
  | .dispatchNamespace => b.dispatchNamespaces.map (·.name)
  | .logForwarding => b.logForwarding.map (·.name)
  | .dataBlob => b.dataBlobs.map (·.1)
  | .textBlob => b.textBlobs.map (·.1)
  | .wasmModule => b.wasmModules.map (·.1)
  | .unsafeBinding => b.unsafeBindings.map (·.name)
  | .queueProducer => b.queueProducers.map (·.name)
  | .sendEmail => b.sendEmail.map (·.name)
  | .vectorizeIndex => b.vectorizeIndexes.map (·.name)
  | .hyperdrive => b.hyperdrives.map (·.name)
  | .mtlsCertificate => b.mtlsCertificates.map (·.name)

/-- Every binding with its kind, in the order of the kinds. -/
def pairs (b : Bindings) : List (Kind × String) :=
  Kind.all.flatMap fun kind => (b.names kind).map (kind, ·)

/-- The number of bindings. -/
def size (b : Bindings) : Nat := b.pairs.length

/-- Whether there is neither a binding nor a rule. -/
def isEmpty (b : Bindings) : Bool := b.pairs.isEmpty && b.rules.isEmpty

/-! ## Reading -/

/-- Reads a binding of a kind. -/
def resource (kind : Kind) : Decoder Resource := fun reading v => do
  let f ← Fields.ofValue? (kind.nameKey :: kind.settingKeys) reading v
  let name ← f.orElse kind.nameKey asText ""
  let settings ← kind.settingKeys.mapM fun key => f.optional key asText
  pure ⟨name, settings⟩

/-- Reads what stands at the place of a kind, where everything has a default. -/
def at? {α : Type} (f : Fields) (kind : Kind) (item : Decoder (List α)) : Option (List α) :=
  f.nested kind.key kind.listKey? item []

/-- Reads the bindings of a kind that are records. -/
def resources (f : Fields) (kind : Kind) : Option (List Resource) :=
  at? f kind (listOf (resource kind))

/-- Reads the bindings of a kind that are files. -/
def assets (f : Fields) (kind : Kind) : Option Assets := at? f kind (tableOf asText)

/-- The fields of an environment in the order in which an array holds them. -/
def fieldKeys : List String := Kind.all.map Kind.key ++ ["rules"]

/-- Reads the bindings of an environment from its fields. -/
def ofFields (f : Fields) : Option Bindings := do
  let kvNamespaces ← resources f .kvNamespace
  let vars ← at? f .plainVar (tableOf asValue)
  let durableObjects ← resources f .durableObject
  let r2Buckets ← resources f .r2Bucket
  let d1Databases ← resources f .d1Database
  let services ← resources f .service
  let analyticsDatasets ← resources f .analyticsDataset
  let dispatchNamespaces ← resources f .dispatchNamespace
  let logForwarding ← resources f .logForwarding
  let dataBlobs ← assets f .dataBlob
  let textBlobs ← assets f .textBlob
  let wasmModules ← assets f .wasmModule
  let unsafeBindings ← resources f .unsafeBinding
  let queueProducers ← resources f .queueProducer
  let sendEmail ← resources f .sendEmail
  let vectorizeIndexes ← resources f .vectorizeIndex
  let hyperdrives ← resources f .hyperdrive
  let mtlsCertificates ← resources f .mtlsCertificate
  let rules ← f.orElse "rules" (listOf Rule.decode) []
  pure {
    kvNamespaces, vars, durableObjects, r2Buckets, d1Databases, services, analyticsDatasets,
    dispatchNamespaces, logForwarding, dataBlobs, textBlobs, wasmModules, unsafeBindings,
    queueProducers, sendEmail, vectorizeIndexes, hyperdrives, mtlsCertificates, rules }

/-- Reads the bindings of an environment. -/
def decode : Decoder Bindings := fun reading v =>
  (Fields.ofValue? fieldKeys reading v).bind ofFields

end Bindings

end WorkerEnv
