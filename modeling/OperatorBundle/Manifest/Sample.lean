import OperatorBundle.Text.Lowercase

/-!
# Sample manifests

The manifests of a small operator, to try a build on.
-/

namespace OperatorBundle.Sample

/-- A text from its lines. -/
def lines (ls : List String) : String := String.join (ls.map (· ++ "\n"))

/-- A template of a descriptor, with leftovers in all places that are filled in. -/
def template : String := lines
  ["apiVersion: operators.coreos.com/v1alpha1",
   "kind: ClusterServiceVersion",
   "metadata:",
   "  name: managed-velero-operator.v0.0.0",
   "  namespace: placeholder",
   "  annotations:",
   "    capabilities: Basic Install",
   "    categories: OpenShift Optional",
   "spec:",
   "  displayName: Managed Velero Operator",
   "  description: Deploys and manages Velero for cluster backups.",
   "  customresourcedefinitions:",
   "    owned:",
   "      - name: stale.example.com",
   "        kind: Stale",
   "        version: v0",
   "  install:",
   "    strategy: deployment",
   "    spec:",
   "      clusterPermissions:",
   "        - serviceAccountName: stale",
   "          rules: []",
   "      deployments:",
   "        - name: managed-velero-operator",
   "          spec:",
   "            placeholder: true",
   "  version: 0.0.0",
   "  replaces: \"\""]

/-- A role with two rules. -/
def clusterRole : String := lines
  ["apiVersion: rbac.authorization.k8s.io/v1",
   "kind: ClusterRole",
   "metadata:",
   "  name: managed-velero-operator",
   "rules:",
   "  - apiGroups:",
   "      - \"\"",
   "    resources:",
   "      - pods",
   "      - services",
   "    verbs:",
   "      - get",
   "      - list",
   "      - watch",
   "  - apiGroups:",
   "      - velero.io",
   "    resources:",
   "      - \"*\"",
   "    verbs:",
   "      - \"*\""]

/-- The manifest of a deployment whose container waits for its image. -/
def operator : String := lines
  ["apiVersion: apps/v1",
   "kind: Deployment",
   "metadata:",
   "  name: managed-velero-operator",
   "  namespace: openshift-velero",
   "spec:",
   "  replicas: 1",
   "  selector:",
   "    matchLabels:",
   "      name: managed-velero-operator",
   "  template:",
   "    metadata:",
   "      labels:",
   "        name: managed-velero-operator",
   "    spec:",
   "      serviceAccountName: managed-velero-operator",
   "      containers:",
   "        - name: managed-velero-operator",
   "          image: REPLACE_IMAGE",
   "          command:",
   "            - managed-velero-operator"]

/-- A resource definition with a single version. -/
def resourceDefinition (kind version : String) : String :=
  let singular := Text.lowercase kind
  let plural := singular ++ "s"
  lines
    ["apiVersion: apiextensions.k8s.io/v1beta1",
     "kind: CustomResourceDefinition",
     "metadata:",
     "  name: " ++ plural ++ ".example.com",
     "spec:",
     "  group: example.com",
     "  names:",
     "    kind: " ++ kind,
     "    listKind: " ++ kind ++ "List",
     "    plural: " ++ plural,
     "    singular: " ++ singular,
     "  scope: Namespaced",
     "  version: " ++ version]

end OperatorBundle.Sample
