import Listing.Sql.Select
import Listing.Config.Document
import Listing.Request.Reading
import Listing.Page
import Listing.AllowList
import Listing.Uri
import Listing.Proofs.Sql.ValueIndependence
import Listing.Proofs.Sql.Pieces
import Listing.Proofs.Sql.Literals
import Listing.Proofs.Sql.AllowedKeys
import Listing.Proofs.Sql.Placeholders
import Listing.Proofs.Sql.Labels
import Listing.Proofs.Filter.RoundTrip
import Listing.Proofs.Request.WellFormed
import Listing.Proofs.Request.ReservedKeys
import Listing.Proofs.Filter.Clause
import Listing.Proofs.Filter.Kept
import Listing.Proofs.Request.Failure
import Listing.Proofs.Params.Calls
import Listing.Proofs.Text.Utf8
import Listing.Proofs.Text.Form
import Listing.Proofs.Params.Query
import Listing.Proofs.Page.Tiling
import Listing.Proofs.Request.AllowedFields
import Listing.Proofs.Filter.Conjunction
import Listing.Proofs.Request.Clock
import Listing.Proofs.Filter.Tokens
import Listing.Proofs.Filter.ListForms
import Listing.Proofs.Request.Controls
import Listing.Proofs.Filter.Template
import Listing.Proofs.Time.CalendarOrder
import Listing.Proofs.Value.PathText
import Listing.Proofs.Value.DateLiteral
import Listing.Proofs.Request.Lists
import Listing.Proofs.Value.ClockToken
import Listing.Proofs.Request.Keywords
import Listing.Proofs.Request.Pages
import Listing.Proofs.Json.Unambiguous
import Listing.Proofs.Value.JsonText
import Listing.Proofs.Config.Steps
import Listing.Proofs.Request.FieldParts
