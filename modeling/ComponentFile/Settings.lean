import ComponentFile.Text.Basic

/-!
# Settings

The choices a project can make about its component files. Every one has a default.
-/

namespace ComponentFile

/-- The choices a project can make. -/
structure Settings where
  /-- The endings of the files looked for in directories. -/
  fileExtensions : List Text := ["rsx".toList]
  /-- The runtimes that may render an embedded component. -/
  supportedRuntimes : List Text := ["react".toList, "vue".toList, "svelte".toList]
  /-- The attribute that makes a capitalised tag an embedded component. -/
  runtimeAttribute : Text := "client".toList
  /-- The function that a backend has to define. -/
  entryFunction : Text := "get_server_side_props".toList
  /-- The text by which client code declares its properties. -/
  propsMarker : Text := "defineProps".toList
  /-- How many passes over a text the extraction of block directives may take. -/
  passLimit : Nat := 10
  deriving DecidableEq, Repr

/-- Whether embedded components may name the runtime. -/
def Settings.supportsRuntime (settings : Settings) (runtime : Text) : Bool :=
  settings.supportedRuntimes.contains runtime

end ComponentFile
