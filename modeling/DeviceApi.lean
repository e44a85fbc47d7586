import DeviceApi.Main
import DeviceApi.Log.Template
import DeviceApi.Text.Columns
import DeviceApi.Proofs.Normalization.Handles
import DeviceApi.Proofs.Api.Chains
import DeviceApi.Proofs.Api.Plain
import DeviceApi.Proofs.Normalization.Envelopes
import DeviceApi.Proofs.Normalization.Idempotence
import DeviceApi.Proofs.Normalization.Operations
import DeviceApi.Proofs.Normalization.Copies
import DeviceApi.Proofs.Schema.NormalForm
import DeviceApi.Proofs.Document.Sorting
import DeviceApi.Proofs.Json.Numbers
import DeviceApi.Proofs.Json.RoundTrip
import DeviceApi.Proofs.Schema.Shapes
import DeviceApi.Proofs.Normalization.Responses
import DeviceApi.Proofs.Normalization.Exclusivity
import DeviceApi.Proofs.Schema.Duplicates
import DeviceApi.Proofs.Schema.Merged
import DeviceApi.Proofs.Schema.Rewording
import DeviceApi.Proofs.Schema.Descriptions
import DeviceApi.Proofs.Api.Spelling
import DeviceApi.Proofs.Schema.Removal
import DeviceApi.Proofs.Normalization.Redescribed
import DeviceApi.Proofs.Api.Endings
import DeviceApi.Proofs.Api.Partition
import DeviceApi.Proofs.Names.Search
import DeviceApi.Proofs.Normalization.Naming
import DeviceApi.Proofs.Normalization.Acceptance
import DeviceApi.Proofs.Normalization.Meaning
